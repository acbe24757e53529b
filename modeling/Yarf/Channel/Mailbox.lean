/-
**Mailboxes.**

What the processes on one configuration are for each other, said without rings, segments or cursors: for
every two processes a list of messages under way from the one to the other, the pairs that have a
channel, and the peers each process has opened its end to. `PostStep` says what a call may return and
do to these lists, `postMachine` what the processes do together.

* `PostStep.seen` — a call, seen from one mailbox, is a step of its list or nothing;
* `postMachine_delivers` — in every run, for every two processes, what the one has taken is what the
  other has put in, in order and once, and the rest is in the mailbox.
-/

import Mathlib.Order.SetNotation
import Yarf.Lib.Delivery
import Yarf.Channel.Wiring

namespace Yarf.Channel

open Lib

/-! ### Calls and mailboxes -/

/-- A call of some process, with what it returned. -/
inductive PostCall
  /-- `GlobalConfig::Create` with the channels asked for. -/
  | create (channels : List ChanConfig)
  | init (procId : ProcId) (ret : Except Err Unit)
  /-- `CChannel::GetPeerIds`, with the ids that were in the vector and those that are in it then. -/
  | getPeerIds (procId : ProcId) (before after : List ProcId)
  | call (procId : ProcId) (call : NetworkCall)

structure Post where
  /-- The pairs of processes with a channel. -/
  linked : Set (Sym2 ProcId)
  /-- The peers to which a process has its end. -/
  opened : ProcId → Set ProcId
  /-- What is under way from the first process to the second. -/
  mail : ProcId → ProcId → Fifo

namespace Post

def empty : Post := ⟨∅, fun _ => ∅, fun _ _ => Fifo.empty⟩

/-- The mailbox of one sender and one receiver is replaced. -/
def put (post : Post) (sender receiver : ProcId) (fifo : Fifo) : Post :=
  { post with mail := Function.update post.mail sender (Function.update (post.mail sender) receiver fifo) }

variable {post : Post} {sender receiver : ProcId} {fifo : Fifo}

theorem put_same : (post.put sender receiver fifo).mail sender receiver = fifo := by
  unfold put
  dsimp only
  rw [Function.update_self, Function.update_self]

theorem put_other {src dst : ProcId} (other : ¬(src = sender ∧ dst = receiver)) :
    (post.put sender receiver fifo).mail src dst = post.mail src dst := by
  unfold put
  dsimp only
  by_cases same : src = sender
  · subst same
    rw [Function.update_self, Function.update_of_ne fun equal => other ⟨rfl, equal⟩]
  · rw [Function.update_of_ne same]

theorem put_self : post.put sender receiver (post.mail sender receiver) = post := by
  unfold put
  rw [Function.update_eq_self, Function.update_eq_self]

end Post

/-- What a call may return, and do to the mailboxes. -/
inductive PostStep : Post → PostCall → Post → Prop
  /-- Only pairs that were asked for are linked; a link is never removed. -/
  | create (post : Post) (channels : List ChanConfig) (linked : Set (Sym2 ProcId)) :
      post.linked ⊆ linked → (∀ pair ∈ linked, pair ∈ post.linked ∨ pair ∈ channels.map ChanConfig.pair) →
      PostStep post (.create channels) { post with linked := linked }
  /-- `Init` opens ends to peers that are linked, and on success to all of them. -/
  | init (post : Post) (procId : ProcId) (ret : Except Err Unit) (opened : Set ProcId) :
      post.opened procId ⊆ opened → (∀ peer ∈ opened, s(procId, peer) ∈ post.linked) →
      (ret = .ok () → ∀ peer, s(procId, peer) ∈ post.linked → peer ∈ opened) →
      PostStep post (.init procId ret)
        { post with opened := Function.update post.opened procId opened }
  /-- The peers are appended, each once, in the order of their ids. -/
  | getPeerIds (post : Post) (procId : ProcId) (before peers : List ProcId) :
      (∀ peer, peer ∈ peers ↔ peer ∈ post.opened procId) → peers.Pairwise (· < ·) →
      PostStep post (.getPeerIds procId before (before ++ peers)) post
  | sendStranger (post : Post) (procId dst : ProcId) (data : Message) :
      dst ∉ post.opened procId →
      PostStep post (.call procId (.send dst data (.error .kChanDstNotExist))) post
  | send (post : Post) (procId dst : ProcId) (data : Message) (ret : Except Err Unit) (fifo : Fifo) :
      dst ∈ post.opened procId → FifoStep (post.mail procId dst) (.send data ret) fifo →
      PostStep post (.call procId (.send dst data ret)) (post.put procId dst fifo)
  | recvOk (post : Post) (procId src : ProcId) (len : UInt32) (bytes : List UInt8) (fifo : Fifo) :
      src ∈ post.opened procId → FifoStep (post.mail src procId) (.recv len (.ok bytes)) fifo →
      PostStep post (.call procId (.recv len (some src) (.ok bytes))) (post.put src procId fifo)
  /-- Empty only when every mailbox of the process is. -/
  | recvEmpty (post : Post) (procId : ProcId) (len : UInt32) (src : Option ProcId) :
      (∀ peer ∈ post.opened procId, (post.mail peer procId).pending = []) →
      PostStep post (.call procId (.recv len src (.error .kChanEmpty))) post
  | recvShort (post : Post) (procId peer : ProcId) (len : UInt32) (src : Option ProcId)
      (oldest : Accepted) (rest : List Accepted) :
      peer ∈ post.opened procId → (post.mail peer procId).pending = oldest :: rest →
      len.toNat < oldest.bytes.length →
      PostStep post (.call procId (.recv len src (.error .kChanRecvSpaceLimit))) post
  | peekOk (post : Post) (procId src : ProcId) (oldest : Accepted) (rest : List Accepted) :
      src ∈ post.opened procId → (post.mail src procId).pending = oldest :: rest →
      PostStep post (.call procId (.peek (some src) (.ok oldest.bytes))) post
  | peekEmpty (post : Post) (procId : ProcId) (src : Option ProcId) :
      (∀ peer ∈ post.opened procId, (post.mail peer procId).pending = []) →
      PostStep post (.call procId (.peek src (.error .kChanEmpty))) post
  | dropStranger (post : Post) (procId src : ProcId) :
      src ∉ post.opened procId →
      PostStep post (.call procId (.drop src (.error .kChanDstNotExist))) post
  | drop (post : Post) (procId src : ProcId) (ret : Except Err Unit) (fifo : Fifo) :
      src ∈ post.opened procId → FifoStep (post.mail src procId) (.drop ret) fifo →
      PostStep post (.call procId (.drop src ret)) (post.put src procId fifo)

/-- The processes and their mailboxes, from the beginning. -/
def postMachine : Machine Post PostCall where
  init := (· = Post.empty)
  step := PostStep

/-! ### One mailbox -/

/-- What a call that succeeded did to the mailbox of one sender and one receiver. -/
def postEvent (sender receiver : ProcId) : PostCall → Option Event
  | .call procId call => lineEvent sender receiver (procId, call)
  | _ => none

/-- The message an event puts in. -/
def Event.sent : Event → Option (List UInt8)
  | .send data (.ok ()) => some data.bytes
  | _ => none

/-- The message an event takes out: `Recv` shows it, `Drop` does not. -/
def Event.taken : Event → Option (Option (List UInt8))
  | .recv _ (.ok bytes) => some (some bytes)
  | .drop (.ok ()) => some none
  | _ => none

section Mailbox

variable {sender receiver : ProcId} {post next : Post} {call : PostCall}

/-- A list that reports an error is as it was. -/
theorem FifoStep.failed {fifo after : Fifo} {event : Event} (taken : FifoStep fifo event after)
    (passive : event.Passive) : after = fifo := by
  cases taken with
  | sendOk => exact absurd rfl passive
  | recvOk => exact absurd rfl (passive _)
  | dropOk => exact absurd rfl passive
  | sendFull | recvEmpty | recvShort | peekEmpty | peekOk | dropEmpty => rfl

/-- A call on the mailbox from `src` to `dst`, seen from the one from `sender` to `receiver`. -/
theorem Post.put_seen {src dst : ProcId} {fifo : Fifo} {event : Event} {names : Prop} [Decidable names]
    (taken : FifoStep (post.mail src dst) event fifo)
    (role : names ↔ src = sender ∧ dst = receiver) :
    (∃ seen, (if names then some event else none) = some seen ∧
      FifoStep (post.mail sender receiver) seen ((post.put src dst fifo).mail sender receiver)) ∨
    (if names then some event else none) = none ∧
      (post.put src dst fifo).mail sender receiver = post.mail sender receiver := by
  by_cases here : names
  · obtain ⟨rfl, rfl⟩ := role.mp here
    refine Or.inl ⟨event, if_pos here, ?_⟩
    rw [Post.put_same]
    exact taken
  · refine Or.inr ⟨if_neg here, Post.put_other fun same => here (role.mpr ?_)⟩
    exact ⟨same.1.symm, same.2.symm⟩

/-- **A call**, seen from one mailbox: a step of its list, or nothing. -/
theorem PostStep.seen (taken : PostStep post call next) :
    (∃ event, postEvent sender receiver call = some event ∧
      FifoStep (post.mail sender receiver) event (next.mail sender receiver)) ∨
    postEvent sender receiver call = none ∧
      next.mail sender receiver = post.mail sender receiver := by
  cases taken with
  | create | init | getPeerIds | sendStranger | recvEmpty | recvShort | peekEmpty | dropStranger =>
    exact Or.inr ⟨rfl, rfl⟩
  | send procId dst data ret fifo _ step =>
    cases ret with
    | error err =>
      have same := step.failed fun equal : Except.error err = .ok () => by cases equal
      rw [same, Post.put_self]
      exact Or.inr ⟨rfl, rfl⟩
    | ok _ => exact Post.put_seen step Iff.rfl
  | recvOk procId src len bytes fifo _ step =>
    exact Post.put_seen step (by rw [Option.some_inj, and_comm])
  | peekOk procId src oldest rest _ pending =>
    have step : FifoStep (post.mail src procId) (.peek (.ok oldest.bytes)) (post.mail src procId) := by
      have peeked := FifoStep.peekOk (post.mail src procId).sent oldest rest
      rwa [← pending] at peeked
    have seen := @Post.put_seen sender receiver post src procId _ _
      (procId = receiver ∧ some src = some sender) _ step (by rw [Option.some_inj, and_comm])
    rwa [Post.put_self] at seen
  | drop procId src ret fifo _ step =>
    cases ret with
    | error err =>
      have same := step.failed fun equal : Except.error err = .ok () => by cases equal
      rw [same, Post.put_self]
      exact Or.inr ⟨rfl, rfl⟩
    | ok _ => exact Post.put_seen step (by rw [and_comm])

/-- What all processes do is, for one mailbox, a run of its list. -/
theorem post_projection (sender receiver : ProcId) :
    Projection postMachine fifoMachine (fun _ => True) (fun post => post.mail sender receiver)
      (postEvent sender receiver) := by
  refine ⟨fun _ _ _ _ _ => trivial, ?_, ?_⟩
  · intro last call next event _ taken seen
    rcases @PostStep.seen sender receiver _ _ _ taken with ⟨found, same, step⟩ | ⟨none, _⟩
    · cases same.symm.trans seen
      exact step
    · cases none.symm.trans seen
  · intro last call next _ taken unseen
    rcases @PostStep.seen sender receiver _ _ _ taken with ⟨found, same, _⟩ | ⟨_, kept⟩
    · cases same.symm.trans unseen
    · exact kept

end Mailbox

/-! ### Delivery -/

/-- The messages of the list, oldest first. -/
def Fifo.messages (fifo : Fifo) : List (List UInt8) := fifo.pending.map Accepted.bytes

/-- **One step of the list**, in terms of what has been put in and taken out. -/
theorem FifoStep.delivers {fifo after : Fifo} {event : Event} {sent : List (List UInt8)}
    {taken : List (Option (List UInt8))} (delivers : Delivers sent taken fifo.messages)
    (step : FifoStep fifo event after) :
    Delivers (sent ++ [event].filterMap Event.sent) (taken ++ [event].filterMap Event.taken)
      after.messages := by
  cases step with
  | sendFull | recvEmpty | recvShort | peekEmpty | peekOk | dropEmpty =>
    show Delivers (sent ++ []) (taken ++ []) _
    rwa [List.append_nil, List.append_nil]
  | sendOk _ data =>
    show Delivers (sent ++ [data.bytes]) (taken ++ []) (List.map _ (fifo.pending ++ [_]))
    rw [List.append_nil, List.map_append]
    exact delivers.push data.bytes
  | recvOk count len oldest rest =>
    show Delivers (sent ++ []) (taken ++ [some oldest.bytes]) _
    rw [List.append_nil]
    exact delivers.pop _ fun found same => (Option.some.inj same).symm
  | dropOk count oldest rest =>
    show Delivers (sent ++ []) (taken ++ [none]) _
    rw [List.append_nil]
    exact delivers.pop _ nofun

theorem fifoMachine_delivers {events : List Event} {fifo : Fifo}
    (run : fifoMachine.Run Fifo.empty events fifo) :
    Delivers (events.filterMap Event.sent) (events.filterMap Event.taken) fifo.messages := by
  generalize start : Fifo.empty = first at run
  induction run with
  | nil => exact start ▸ .nil
  | snoc _ taken ih =>
    rw [List.filterMap_append, List.filterMap_append]
    exact FifoStep.delivers ih taken

/-- **Mailboxes deliver.** -/
theorem postMachine_delivers {calls : List PostCall} {post : Post}
    (run : postMachine.Run Post.empty calls post) (sender receiver : ProcId) :
    Delivers ((calls.filterMap (postEvent sender receiver)).filterMap Event.sent)
      ((calls.filterMap (postEvent sender receiver)).filterMap Event.taken)
      (post.mail sender receiver).messages :=
  fifoMachine_delivers ((post_projection sender receiver).run trivial run)

end Yarf.Channel
