/-
**What the processes get from each other.**

What `world_refines_mailboxes` means for the calls themselves, in every run of all processes of a host:

* `world_delivers` — for every two processes, what the one takes from the other, by `Recv` or `Drop`, is what
  the other has sent to it, in order and once; what it has not taken is in the lane between them, and
  `Peek` shows the message that is taken next;
* `world_drains` — a process that calls `Recv` over and over gets as many messages as its peers have sent to
  it and it has not taken, and then `kChanEmpty`;
* `world_peers` — `GetPeerIds` lists, in the order of their ids, processes for which a channel was asked for;
  and when a process lists a peer, the peer lists it from its next successful `Init` on.
-/

import Mathlib.Algebra.BigOperators.Group.List.Basic
import Yarf.Channel.World

namespace Yarf.Channel

open Lib

/-! ### Delivery -/

/-- The messages `sender` has sent to `receiver`. -/
def sentTo (sender receiver : ProcId) (calls : List PostCall) : List (List UInt8) :=
  (calls.filterMap (postEvent sender receiver)).filterMap Event.sent

/-- The messages `receiver` has taken from `sender`, as far as it has seen them. -/
def takenFrom (sender receiver : ProcId) (calls : List PostCall) : List (Option (List UInt8)) :=
  (calls.filterMap (postEvent sender receiver)).filterMap Event.taken

/-- `Peek` shows the message that is taken next. -/
theorem postMachine_peek {calls after : List PostCall} {post : Post} {sender receiver : ProcId}
    {bytes : List UInt8}
    (run : postMachine.Run Post.empty (calls ++ .call receiver (.peek (some sender) (.ok bytes)) :: after)
      post) :
    (sentTo sender receiver calls)[(takenFrom sender receiver calls).length]? = some bytes := by
  obtain ⟨middle, next, first, taken, _⟩ := Machine.run_split.mp run
  have delivers := postMachine_delivers first sender receiver
  generalize label : PostCall.call receiver (.peek (some sender) (.ok bytes)) = call at taken
  cases taken with
  | peekOk procId src oldest rest _ pending =>
    cases label
    have messages : (middle.mail sender receiver).messages = oldest.bytes :: rest.map Accepted.bytes := by
      rw [Fifo.messages, pending, List.map_cons]
    rw [← List.head?_drop]
    unfold sentTo takenFrom
    rw [← delivers.rest, messages, List.head?_cons]
  | _ => cases label

/-- **The processes deliver.** For every run of all processes of a host and every two of them: what the second
has taken from the first is what the first has sent to it, in order and once; the rest is in the lane from
the first to the second; and what `Peek` showed is the message taken next. -/
theorem world_delivers (initByKey : ℕ → Option ShmId) (distinct : ∀ n, Distinct initByKey n)
    (start last : World) (calls : List PostCall) (begins : (worldMachine initByKey).init start)
    (run : (worldMachine initByKey).Run start calls last) (sender receiver : ProcId) :
    ∃ pending, Delivers (sentTo sender receiver calls) (takenFrom sender receiver calls) pending ∧
      (∀ lane ∈ last.state.shm.config.lanes, lane.sender = sender → lane.receiver = receiver →
        ∃ fifo, Represents lane.size (last.segments lane.id) fifo ∧ fifo.messages = pending) ∧
      ∀ before bytes after,
        calls = before ++ .call receiver (.peek (some sender) (.ok bytes)) :: after →
        (sentTo sender receiver before)[(takenFrom sender receiver before).length]? = some bytes := by
  obtain ⟨_, post, rfl, matched, hosts⟩ := (worldMachine_simulates distinct).run begins run
  refine ⟨_, postMachine_delivers matched sender receiver, ?_, ?_⟩
  · rintro lane member rfl rfl
    exact ⟨_, hosts.lanes lane member, rfl⟩
  · rintro before bytes after rfl
    exact postMachine_peek matched

/-- One message has been sent from `1` to `2`, and waits in the lane between them. -/
theorem world_delivers_host : Delivers (sentTo 1 2 hostCalls) (takenFrom 1 2 hostCalls) [[7]] := by
  obtain ⟨pending, delivers, _⟩ := world_delivers hostShm hostShm_distinct hostStart hostSent hostCalls
    ⟨rfl, rfl, fun _ => rfl⟩ hostCalls_run 1 2
  have rest : pending = [[7]] := delivers.rest
  exact rest ▸ delivers

/-! ### Draining -/

/-- `n` calls of `Recv` in a row, and what they return. -/
def World.recvs (procId : ProcId) (len : UInt32) :
    ℕ → World → Option (List (Except Err (List UInt8)) × World)
  | 0, world => some ([], world)
  | n + 1, world =>
    match (world.chans procId).recv world.segments len with
    | none => none
    | some answer =>
      (World.recvs procId len n
        (world.carry ⟨Function.update world.chans procId answer.chan, answer.segments⟩)).map
        fun rest => (answer.ret :: rest.1, rest.2)

/-- What `n` calls return that get these messages and then find the channel empty. -/
def returns (received : List (List UInt8)) (n : ℕ) : List (Except Err (List UInt8)) :=
  received.map .ok ++ List.replicate (n - received.length) (.error .kChanEmpty)

/-- The messages under way to a process from these peers. -/
def Post.due (post : Post) (procId : ProcId) (peers : List ProcId) : ℕ :=
  (peers.map fun peer => (post.mail peer procId).pending.length).sum

section Drain

variable {initByKey : ℕ → Option ShmId} {world : World} {post next : Post} {procId : ProcId}

/-- A packet in a ring has a body that its head can describe. -/
theorem PackAt.short {buff : ℕ → UInt8} {offset : ℕ} {pack : Packet} (lies : PackAt buff offset pack) :
    pack.body.length ≤ 65528 := by
  have few := UInt16.toNat_lt (ChannelPackHead.read buff offset).alignBodyLen
  rw [lies.alignBodyLen, roundUp] at few
  omega

theorem Layout.short {buff : ℕ → UInt8} {C h n : ℕ} {packs : List Packet} (lay : Layout buff C h n packs) :
    ∀ pack ∈ packs, pack.body.length ≤ 65528 := by
  induction lay with
  | nil => exact nofun
  | cons skip lies inside rest ih => exact List.forall_mem_cons.mpr ⟨lies.short, ih⟩

/-- What waits in a mailbox has come through a ring. -/
theorem Hosts.short (hosts : Hosts initByKey world.state world.chans post) {peer : ProcId}
    (known : peer ∈ post.opened procId) :
    ∀ message ∈ (post.mail peer procId).pending, message.bytes.length ≤ 65528 := by
  have here := Std.TreeMap.getElem?_eq_some_getElem ((hosts.opened procId peer).mp known)
  obtain ⟨_, lane, inside, _, rfl, rfl⟩ := (hosts.tagged procId peer _ here).1.lanes
  obtain ⟨_, _, _, lay⟩ := (hosts.lanes lane inside).live
  intro message member
  exact lay.short ⟨_, message.bytes⟩ (List.mem_map_of_mem member)

/-- Taking a message from one of the peers. -/
theorem Post.due_put {peers : List ProcId} (once : peers.Nodup) {src : ProcId} (member : src ∈ peers)
    {fifo : Fifo} (one : fifo.pending.length + 1 = (post.mail src procId).pending.length) :
    (post.put src procId fifo).due procId peers + 1 = post.due procId peers := by
  have others : (peers.erase src).map (fun peer => ((post.put src procId fifo).mail peer procId).pending.length)
      = (peers.erase src).map fun peer => (post.mail peer procId).pending.length := by
    refine List.map_congr_left fun peer inside => ?_
    have apart : peer ≠ src := (once.mem_erase_iff.mp inside).1
    rw [Post.put_other fun same => apart same.1]
  unfold due
  rw [← List.sum_map_erase _ member, ← List.sum_map_erase _ member, others, Post.put_same]
  omega

/-- **One call of `Recv`** with a large buffer takes a message, or there is none. -/
theorem PostStep.recv_due {len : UInt32} (long : 65528 ≤ len.toNat)
    (short : ∀ peer ∈ post.opened procId, ∀ message ∈ (post.mail peer procId).pending,
      message.bytes.length ≤ 65528)
    {peers : List ProcId} (once : peers.Nodup) (all : ∀ peer, peer ∈ peers ↔ peer ∈ post.opened procId)
    {src : Option ProcId} {ret : Except Err (List UInt8)}
    (taken : PostStep post (.call procId (.recv len src ret)) next) :
    next.opened = post.opened ∧
      ((∃ bytes, ret = .ok bytes) ∧ next.due procId peers + 1 = post.due procId peers ∨
        ret = .error .kChanEmpty ∧ next.due procId peers = 0 ∧ post.due procId peers = 0) := by
  generalize label : PostCall.call procId (.recv len src ret) = call at taken
  cases taken with
  | recvOk caller source room bytes fifo known step =>
    cases label
    refine ⟨rfl, Or.inl ⟨⟨bytes, rfl⟩, Post.due_put once ((all _).mpr known) ?_⟩⟩
    generalize post.mail source procId = mailbox at step
    cases step with
    | recvOk => rfl
  | recvEmpty caller room source none =>
    cases label
    have zero : post.due procId peers = 0 := by
      refine List.sum_eq_zero fun count member => ?_
      obtain ⟨peer, inside, rfl⟩ := List.mem_map.mp member
      rw [none peer ((all peer).mp inside), List.length_nil]
    exact ⟨rfl, Or.inr ⟨rfl, zero, zero⟩⟩
  | recvShort caller peer room source oldest rest known pending less =>
    cases label
    have fits := short peer known oldest (pending ▸ List.mem_cons_self)
    omega
  | _ => cases label

/-- **Draining**, in terms of the mailboxes. -/
theorem Hosts.recvs (hosts : Hosts initByKey world.state world.chans post) {len : UInt32}
    (long : 65528 ≤ len.toNat) {peer : ProcId} (known : peer ∈ post.opened procId) {peers : List ProcId}
    (once : peers.Nodup) (all : ∀ peer, peer ∈ peers ↔ peer ∈ post.opened procId) (n : ℕ) :
    ∃ received last after, world.recvs procId len n = some (returns received n, last) ∧
      received.length = min n (post.due procId peers) ∧
      Hosts initByKey last.state last.chans after ∧ after.opened = post.opened ∧
      after.due procId peers = post.due procId peers - n := by
  induction n generalizing world post with
  | zero => exact ⟨[], world, post, rfl, (Nat.zero_min _).symm, hosts, rfl, rfl⟩
  | succ n ih =>
    have inside := (hosts.opened procId peer).mp known
    obtain ⟨_, _, _, _, answer, answered, _⟩ := @CChannel.call_exact _ _ _ world.segments _
      (recv_receives len) (hosts.placed procId).cursor inside
    have answered' : (world.chans procId).recv world.segments len = some answer := answered
    obtain ⟨next, step, hosts'⟩ := hosts.recv len answered'
    obtain ⟨same, outcome⟩ := step.recv_due long (fun peer known => hosts.short known) once all
    obtain ⟨received, last, after, calls, count, hosts'', opened, due⟩ :=
      @ih (world.carry ⟨Function.update world.chans procId answer.chan, answer.segments⟩) next hosts'
        (same ▸ known) (same ▸ all)
    have unfolded : world.recvs procId len (n + 1) = some (answer.ret :: returns received n, last) := by
      rw [World.recvs, answered']
      dsimp only
      rw [calls]
      rfl
    rw [unfolded]
    rcases outcome with ⟨⟨bytes, ret⟩, less⟩ | ⟨ret, none, empty⟩
    · refine ⟨bytes :: received, last, after, ?_, ?_, hosts'', opened.trans same, by omega⟩
      · rw [ret, returns, returns, List.length_cons, Nat.add_sub_add_right]
        rfl
      · rw [List.length_cons]
        omega
    · have nothing : received = [] := List.eq_nil_of_length_eq_zero (by omega)
      refine ⟨[], last, after, ?_, ?_, hosts'', opened.trans same, by omega⟩
      · rw [ret, nothing]
        rfl
      · rw [empty]
        rfl

end Drain

section Peers

variable {post next : Post} {call : PostCall}

/-- The pairs for which a call of `Create` asks for a channel. -/
def PostCall.asked : PostCall → List (Sym2 ProcId)
  | .create channels => channels.map ChanConfig.pair
  | _ => []

/-- Links stay, and so do the ends a process has opened; what is new has been asked for, or is linked. -/
theorem PostStep.grows (taken : PostStep post call next) :
    post.linked ⊆ next.linked ∧ (∀ procId, post.opened procId ⊆ next.opened procId) ∧
      (∀ pair ∈ next.linked, pair ∈ post.linked ∨ pair ∈ call.asked) ∧
      ∀ procId, ∀ peer ∈ next.opened procId,
        peer ∈ post.opened procId ∨ s(procId, peer) ∈ post.linked := by
  have still : ∀ pair ∈ post.linked, pair ∈ post.linked ∨ pair ∈ call.asked := fun _ => Or.inl
  cases taken with
  | create channels linked more asked =>
    exact ⟨more, fun _ => subset_rfl, asked, fun _ _ => Or.inl⟩
  | init procId ret opened more own all =>
    refine ⟨subset_rfl, fun other => ?_, still, fun other peer member => ?_⟩
    · rcases eq_or_ne other procId with rfl | apart
      · dsimp only
        rwa [Function.update_self]
      · dsimp only
        rw [Function.update_of_ne apart]
    · dsimp only at member
      rcases eq_or_ne other procId with rfl | apart
      · rw [Function.update_self] at member
        exact Or.inr (own peer member)
      · rw [Function.update_of_ne apart] at member
        exact Or.inl member
  | getPeerIds | sendStranger | send | recvOk | recvEmpty | recvShort | peekOk | peekEmpty | dropStranger
  | drop => exact ⟨subset_rfl, fun _ => subset_rfl, still, fun _ _ => Or.inl⟩

/-- What a run adds to the links and the ends. -/
theorem postMachine_grows {calls : List PostCall} (run : postMachine.Run post calls next) :
    post.linked ⊆ next.linked ∧ (∀ procId, post.opened procId ⊆ next.opened procId) ∧
      ∀ pair ∈ next.linked, pair ∈ post.linked ∨ ∃ call ∈ calls, pair ∈ call.asked := by
  induction run with
  | nil => exact ⟨subset_rfl, fun _ => subset_rfl, fun _ => Or.inl⟩
  | snoc _ taken ih =>
    obtain ⟨links, ends, asked⟩ := ih
    obtain ⟨links', ends', asked', _⟩ := PostStep.grows taken
    refine ⟨links.trans links', fun procId => (ends procId).trans (ends' procId), fun pair member => ?_⟩
    rcases asked' pair member with old | new
    · refine (asked pair old).imp_right fun ⟨call, inside, here⟩ => ?_
      exact ⟨call, List.mem_append_left _ inside, here⟩
    · exact Or.inr ⟨_, List.mem_append_right _ List.mem_cons_self, new⟩

/-- A process has ends to peers it is linked with only. -/
theorem postMachine_opened {calls : List PostCall} (run : postMachine.Run Post.empty calls next)
    (procId : ProcId) : ∀ peer ∈ next.opened procId, s(procId, peer) ∈ next.linked := by
  generalize start : Post.empty = first at run
  induction run with
  | nil =>
    subst start
    exact nofun
  | snoc _ taken ih =>
    obtain ⟨links, _, _, ends⟩ := PostStep.grows taken
    intro peer member
    rcases ends procId peer member with old | linked
    · exact links (ih peer old)
    · exact links linked

theorem PostStep.peers {procId : ProcId} {before ids : List ProcId}
    (taken : PostStep post (.getPeerIds procId before (before ++ ids)) next) :
    next = post ∧ (∀ peer, peer ∈ ids ↔ peer ∈ post.opened procId) ∧ ids.Pairwise (· < ·) := by
  generalize label : PostCall.getPeerIds procId before (before ++ ids) = call at taken
  cases taken with
  | getPeerIds caller first peers all order =>
    obtain ⟨rfl, rfl, same⟩ := PostCall.getPeerIds.inj label
    rw [List.append_cancel_left same]
    exact ⟨rfl, all, order⟩
  | _ => cases label

end Peers

/-- **The peers of a process.** In every run of all processes of a host, `GetPeerIds` lists each peer once and
in the order of the ids, only peers for which an earlier call of `Create` asked for a channel; and when
`first` lists `second`, then `second` lists `first` from its next successful `Init` on. -/
theorem world_peers (initByKey : ℕ → Option ShmId) (distinct : ∀ n, Distinct initByKey n)
    (start last : World) (calls after : List PostCall) (first : ProcId) (before ids : List ProcId)
    (begins : (worldMachine initByKey).init start)
    (run : (worldMachine initByKey).Run start
      (calls ++ .getPeerIds first before (before ++ ids) :: after) last) :
    ids.Pairwise (· < ·) ∧
      (∀ peer ∈ ids, ∃ call ∈ calls, s(first, peer) ∈ call.asked) ∧
      ∀ second ∈ ids, ∀ between opened rest before' ids',
        after = between ++ .init second (.ok ()) :: (opened ++
          .getPeerIds second before' (before' ++ ids') :: rest) → first ∈ ids' := by
  obtain ⟨_, post, rfl, matched, _⟩ := (worldMachine_simulates distinct).run begins run
  obtain ⟨middle, next, prior, taken, later⟩ := Machine.run_split.mp matched
  obtain ⟨rfl, all, order⟩ := PostStep.peers taken
  have linked : ∀ peer ∈ ids, s(first, peer) ∈ next.linked :=
    fun peer member => postMachine_opened prior first peer ((all peer).mp member)
  refine ⟨order, fun peer member => ?_, ?_⟩
  · exact ((postMachine_grows prior).2.2 _ (linked peer member)).resolve_left (Set.notMem_empty _)
  · rintro second member between opened rest before' ids' rfl
    obtain ⟨old, new, until_, init, behind⟩ := Machine.run_split.mp later
    obtain ⟨here, _, open_, listed, _⟩ := Machine.run_split.mp behind
    obtain ⟨_, all', _⟩ := PostStep.peers listed
    have still : s(second, first) ∈ old.linked := Sym2.eq_swap ▸ (postMachine_grows until_).1 (linked _ member)
    have own : first ∈ new.opened second := by
      generalize label : PostCall.init second (.ok ()) = call at init
      cases init with
      | init procId ret opened more own complete =>
        cases label
        dsimp only
        rw [Function.update_self]
        exact complete rfl first still
      | _ => cases label
    exact (all' first).mpr ((postMachine_grows open_).2.1 second own)

/-- Process `2` lists process `1`, which has listed it. -/
theorem world_peers_host : 1 ∈ (hostOpened.chans 2).getPeerIds [] := by
  have listed : (worldMachine hostShm).Run hostStart _ (hostLinked.opens 1) :=
    .snoc hostLinked_run (.getPeerIds _ 1 [])
  have opened : (worldMachine hostShm).Run hostStart _ hostOpened :=
    .snoc (.snoc listed (.init (hostLinked.opens 1) 2 (fun _ => true) (.ok ()) _ rfl)) (.getPeerIds _ 2 [])
  have peers := world_peers hostShm hostShm_distinct hostStart hostOpened (hostCalls.take 2)
    [.init 2 (.ok ()), .getPeerIds 2 [] ((hostOpened.chans 2).getPeerIds [])] 1 [] [2]
    ⟨rfl, rfl, fun _ => rfl⟩ opened
  exact peers.2.2 2 List.mem_cons_self [] [] [] [] _ rfl

end Yarf.Channel
