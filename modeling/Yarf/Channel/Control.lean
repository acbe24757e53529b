/-
**The control message** (`SetCtrlMsg` and `GetCtrlMsg` of `CChannel`, `CUnlockQueue` and `CSendUnlockQueue`).

Every queue's head has room for one message beside the ring. `SetCtrlMsg` stores into it, and no call for data
touches it (`SystemStep.control`). `GetCtrlMsg` clears the caller's length before it compares it with the stored
one, so that only the empty message passes.

* `ControlInv.step` — the head holds the last message accepted;
* `getCtrlMsg_ok_iff` — what is got;
* `control_register_iff` — which runs have a register.
-/

import Yarf.Channel.Multiplex

namespace Yarf.Channel

open Lib

/-! ### The program -/

namespace CUnlockQueue

/-- `CUnlockQueue::SetCtrlMsg` -/
def setCtrlMsg (data : Message) (queue : CUnlockQueue) (segments : Segments) : Except Err Unit × Segments :=
  let result := Channel.setCtrlMsg (segments queue.sender) data
  (result.1, Function.update segments queue.sender result.2)

/-- `CUnlockQueue::GetCtrlMsg` -/
def getCtrlMsg (queue : CUnlockQueue) (segments : Segments) : Except Err (List UInt8) :=
  Channel.getCtrlMsg (segments queue.sender)

end CUnlockQueue

namespace CChannel

/-- `CChannel::SetCtrlMsg` -/
def setCtrlMsg (chan : CChannel) (segments : Segments) (dst : ProcId) (data : Message) :
    Except Err Unit × Segments :=
  match chan.unlockQueues[dst]? with
  | none => (.error .kChanDstNotExist, segments)
  | some queue => queue.setCtrlMsg data segments

/-- `CChannel::GetCtrlMsg`. The caller's `len` and `data` are overwritten before they are looked at. -/
def getCtrlMsg (chan : CChannel) (segments : Segments) (dst : ProcId) (_len : UInt32) :
    Except Err (List UInt8) :=
  match chan.unlockQueues[dst]? with
  | none => .error .kChanDstNotExist
  | some queue => queue.getCtrlMsg segments

end CChannel

/-! ### Runs -/

/-- The two fields of the head that hold the message. -/
def Queue.control (queue : Queue) : Vector UInt8 kUnlockQueueMaxCtrlMsg × UInt32 :=
  (queue.header.ctrlMsg, queue.header.ctrlMsgLen)

/-- The state, and the messages that `SetCtrlMsg` has accepted, the last one first. -/
structure ControlRun where
  sys : System
  accepted : List (ProcId × List UInt8)

inductive ControlAct
  /-- `Send`, `Recv`, `Peek`, `Drop`, or what the peers do -/
  | traffic (act : Act)
  | setCtrl (dst : ProcId) (data : Message)
  /-- With a buffer of `len` bytes. -/
  | getCtrl (dst : ProcId) (len : UInt32)

/-- One call. A peer receives from the segment this channel sends into; it may change anything there but the
control message, and anything at all elsewhere. -/
inductive ControlStep : ControlRun → ControlAct → ControlRun → Prop
  | traffic (run : ControlRun) (act : Act) (sys : System) : SystemStep run.sys act sys →
      (act = .peers → ∀ (peer : ProcId) (queue : CUnlockQueue), run.sys.chan.unlockQueues[peer]? = some queue →
        (sys.segments queue.sender).control = (run.sys.segments queue.sender).control) →
      ControlStep run (.traffic act) ⟨sys, run.accepted⟩
  | accept (run : ControlRun) (dst : ProcId) (data : Message) (segments : Segments) :
      run.sys.chan.setCtrlMsg run.sys.segments dst data = (.ok (), segments) →
      ControlStep run (.setCtrl dst data)
        ⟨{ run.sys with segments := segments }, (dst, data.bytes) :: run.accepted⟩
  | refuse (run : ControlRun) (dst : ProcId) (data : Message) (err : Err) (segments : Segments) :
      run.sys.chan.setCtrlMsg run.sys.segments dst data = (.error err, segments) →
      ControlStep run (.setCtrl dst data) ⟨{ run.sys with segments := segments }, run.accepted⟩
  | getCtrl (run : ControlRun) (dst : ProcId) (len : UInt32) : ControlStep run (.getCtrl dst len) run

def controlMachine (start : ControlRun) : Machine ControlRun ControlAct where
  init := (· = start)
  step := ControlStep

/-- The last message accepted for a peer of this kind; the empty one if there is none. -/
def lastOf (kind : ProcId → Bool) (accepted : List (ProcId × List UInt8)) : List UInt8 :=
  match accepted.find? fun entry => kind entry.1 with
  | none => []
  | some entry => entry.2

/-- The last message accepted for `dst`. -/
def ControlRun.lastFor (run : ControlRun) (dst : ProcId) : List UInt8 := lastOf (· = dst) run.accepted

/-- The last message accepted for a peer whose queue sends into this segment. -/
def ControlRun.lastInto (run : ControlRun) (shm : ShmId) : List UInt8 :=
  lastOf (fun peer => (run.sys.chan.unlockQueues[peer]?).map CUnlockQueue.sender = some shm) run.accepted

/-- **What a call owes**: `SetCtrlMsg` to a peer fails exactly on messages of more than 512 bytes, and changes
nothing then; `GetCtrlMsg` with at least 512 bytes of room gives the last message accepted for the peer. -/
def ControlExact (taken : Machine.Step ControlRun ControlAct) : Prop :=
  match taken.label with
  | .traffic _ => True
  | .setCtrl dst data => dst ∈ taken.before.sys.chan.unlockQueues →
      let result := taken.before.sys.chan.setCtrlMsg taken.before.sys.segments dst data
      ((∃ err, result.1 = .error err) ↔ kUnlockQueueMaxCtrlMsg < data.bytes.length) ∧
        ∀ err, result.1 = .error err → result.2 = taken.before.sys.segments
  | .getCtrl dst len => dst ∈ taken.before.sys.chan.unlockQueues → kUnlockQueueMaxCtrlMsg ≤ len.toNat →
      taken.before.sys.chan.getCtrlMsg taken.before.sys.segments dst len = .ok (taken.before.lastFor dst)

/-- No message is to be got: the last ones accepted for the peer, and into the segment of its queue, are empty. -/
def NothingSet (taken : Machine.Step ControlRun ControlAct) : Prop :=
  ∀ (dst : ProcId) (len : UInt32) (queue : CUnlockQueue), taken.label = .getCtrl dst len →
    kUnlockQueueMaxCtrlMsg ≤ len.toNat → taken.before.sys.chan.unlockQueues[dst]? = some queue →
      taken.before.lastFor dst = [] ∧ taken.before.lastInto queue.sender = []

/-! ### Calls for data -/

section Traffic

variable {queue : Queue} {chan : CChannel} {segments : Segments} {shm : ShmId}

theorem recv_control (queue : Queue) (len : UInt32) : (recv queue len).2.control = queue.control := by
  unfold recv
  split
  · rfl
  · split_ifs <;> rfl

theorem peek_control (queue : Queue) : (peek queue).2.control = queue.control := by
  unfold peek
  split <;> rfl

theorem drop_control (queue : Queue) : (drop queue).2.control = queue.control := by
  unfold drop
  split <;> rfl

theorem send_control (queue : Queue) (data : Message) (reserve : Reserve) :
    (send queue data reserve).2.control = queue.control := by
  unfold send
  split <;> rfl

/-- An update with a queue that has the same control message. -/
theorem update_control {after : Queue} (place : ShmId) (same : after.control = (segments place).control) :
    (Function.update segments place after shm).control = (segments shm).control := by
  by_cases here : shm = place
  · rw [here, Function.update_self, same]
  · rw [Function.update_of_ne here]

/-- A loop over the queues keeps what each call on them keeps. -/
theorem poll_control {α : Type} {op : CUnlockQueue → Segments → Except Err α × Segments} {left : ℕ}
    {answer : CChannel.Answer α}
    (keeps : ∀ queue segments, ((op queue segments).2 shm).control = (segments shm).control)
    (answered : chan.poll op left segments = some answer) :
    (answer.segments shm).control = (segments shm).control := by
  refine CChannel.poll_induction
    (motive := fun _ segments => (answer.segments shm).control = (segments shm).control) ?_ ?_ ?_ answered
  · intro chan segments queue value _ done _
    rw [← keeps queue segments, done]
  · intro chan segments queue err _ done _
    rw [← keeps queue segments, done]
  · intro chan segments after queue _ empty rest
    rw [rest, ← keeps queue segments, empty]

/-- **A call for data** keeps the queues of the channel and every control message. -/
theorem SystemStep.control {sys next : System} {act : Act} (taken : SystemStep sys act next)
    (ours : act ≠ .peers) : next.chan.unlockQueues = sys.chan.unlockQueues ∧
      ∀ shm, (next.segments shm).control = (sys.segments shm).control := by
  cases taken with
  | send dst data reserve =>
    refine ⟨rfl, fun shm => ?_⟩
    unfold CChannel.send
    cases found : sys.chan.unlockQueues[dst]? with
    | none => rfl
    | some queue => exact update_control queue.sender (send_control _ data reserve)
  | recv len answer answered =>
    refine ⟨(CChannel.poll_unlockQueues answered).trans (CChannel.prepare_unlockQueues _), fun shm => ?_⟩
    exact poll_control (fun queue _ => update_control queue.recver (recv_control _ len)) answered
  | peek answer answered =>
    refine ⟨(CChannel.poll_unlockQueues answered).trans (CChannel.prepare_unlockQueues _), fun shm => ?_⟩
    exact poll_control (fun queue _ => update_control queue.recver (peek_control _)) answered
  | drop src =>
    refine ⟨rfl, fun shm => ?_⟩
    unfold CChannel.drop
    cases found : sys.chan.unlockQueues[src]? with
    | none => rfl
    | some queue => exact update_control queue.recver (drop_control _)
  | peers segments => exact absurd rfl ours

end Traffic

/-! ### The message -/

/-- The head holds this message. -/
structure Queue.Holds (queue : Queue) (message : List UInt8) : Prop where
  small : message.length ≤ kUnlockQueueMaxCtrlMsg
  len : queue.control.2.toNat = message.length
  bytes : queue.control.1.toList.take message.length = message

section Message

variable {queue other : Queue} {data : Message} {message bytes : List UInt8}

theorem Queue.Holds.congr (holds : queue.Holds message) (same : other.control = queue.control) :
    other.Holds message :=
  ⟨holds.small, same ▸ holds.len, same ▸ holds.bytes⟩

theorem setCtrlMsg_large (large : kUnlockQueueMaxCtrlMsg < data.bytes.length) :
    setCtrlMsg queue data = (.error .kSpaceLimit, queue) := if_pos large

/-- **`SetCtrlMsg` stores the message.** -/
theorem setCtrlMsg_holds (small : data.bytes.length ≤ kUnlockQueueMaxCtrlMsg) :
    (setCtrlMsg queue data).1 = .ok () ∧ (setCtrlMsg queue data).2.Holds data.bytes := by
  unfold setCtrlMsg
  rw [if_neg (Nat.not_lt.mpr small)]
  refine ⟨rfl, small, data.toNat_len, ?_⟩
  refine List.ext_getElem (by simpa [Queue.control] using small) fun i _ below => ?_
  simp [Queue.control, below]

/-- **What `GetCtrlMsg` gives**: nothing but the empty message. -/
theorem getCtrlMsg_ok_iff (holds : queue.Holds message) : getCtrlMsg queue = .ok bytes ↔
    message = [] ∧ bytes = [] := by
  have len := holds.len
  unfold Queue.control at len
  dsimp only at len
  unfold getCtrlMsg
  by_cases empty : message = []
  · have zero : queue.header.ctrlMsgLen = 0 := by
      rw [empty] at len
      exact UInt32.toNat_inj.mp len
    rw [zero, if_neg (by decide), if_neg (by decide)]
    constructor
    · exact fun got => ⟨empty, (Except.ok.inj got).symm⟩
    · rintro ⟨-, nothing⟩
      rw [nothing]
      rfl
  · have some : 0 < queue.header.ctrlMsgLen := by
      rw [UInt32.lt_iff_toNat_lt, len]
      exact List.length_pos_iff.mpr empty
    rw [if_pos some]
    exact iff_of_false nofun fun both => empty both.1

end Message

/-! ### The register -/

section Register

variable {run next : ControlRun} {act : ControlAct} {dst : ProcId} {data : Message} {queues : UnlockQueueSet}

theorem lastOf_cons (kind : ProcId → Bool) (peer : ProcId) (message : List UInt8)
    (accepted : List (ProcId × List UInt8)) :
    lastOf kind ((peer, message) :: accepted) = if kind peer then message else lastOf kind accepted := by
  unfold lastOf
  rw [List.find?_cons]
  cases kind peer <;> rfl

/-- A message that `SetCtrlMsg` accepts is stored in the segment of the peer's queue. -/
theorem setCtrlMsg_ok {segments : Segments}
    (accepted : run.sys.chan.setCtrlMsg run.sys.segments dst data = (.ok (), segments)) :
    ∃ queue, run.sys.chan.unlockQueues[dst]? = some queue ∧
      data.bytes.length ≤ kUnlockQueueMaxCtrlMsg ∧ segments
        = Function.update run.sys.segments queue.sender (setCtrlMsg (run.sys.segments queue.sender) data).2 := by
  unfold CChannel.setCtrlMsg at accepted
  cases found : run.sys.chan.unlockQueues[dst]? with
  | none =>
    rw [found] at accepted
    cases accepted
  | some queue =>
    rw [found] at accepted
    have stored : queue.setCtrlMsg data run.sys.segments = (.ok (), segments) := accepted
    refine ⟨queue, rfl, ?_, (congrArg Prod.snd stored).symm⟩
    by_contra large
    have ret := congrArg Prod.fst stored
    unfold CUnlockQueue.setCtrlMsg at ret
    rw [setCtrlMsg_large (Nat.not_le.mp large)] at ret
    cases ret

/-- A message that it refuses changes nothing. -/
theorem setCtrlMsg_error {segments : Segments} {err : Err}
    (refused : run.sys.chan.setCtrlMsg run.sys.segments dst data = (.error err, segments)) :
    segments = run.sys.segments := by
  unfold CChannel.setCtrlMsg at refused
  cases found : run.sys.chan.unlockQueues[dst]? with
  | none =>
    rw [found] at refused
    exact (congrArg Prod.snd refused).symm
  | some queue =>
    rw [found] at refused
    have stored : queue.setCtrlMsg data run.sys.segments = (.error err, segments) := refused
    have ret : (setCtrlMsg (run.sys.segments queue.sender) data).1 = .error err := congrArg Prod.fst stored
    have after : Function.update run.sys.segments queue.sender
      (setCtrlMsg (run.sys.segments queue.sender) data).2 = segments := congrArg Prod.snd stored
    by_cases large : kUnlockQueueMaxCtrlMsg < data.bytes.length
    · rw [setCtrlMsg_large large, Function.update_eq_self] at after
      exact after.symm
    · rw [(setCtrlMsg_holds (Nat.not_lt.mp large)).1] at ret
      cases ret

/-- The head of every queue that is sent into holds the last message accepted for it. -/
structure ControlInv (queues : UnlockQueueSet) (run : ControlRun) : Prop where
  kept : run.sys.chan.unlockQueues = queues
  holds : ∀ (peer : ProcId) (queue : CUnlockQueue), queues[peer]? = some queue →
    (run.sys.segments queue.sender).Holds (run.lastInto queue.sender)

/-- A step that keeps the queues, the control messages and what has been accepted. -/
theorem ControlInv.same (inv : ControlInv queues run) (sys : System)
    (chan : sys.chan.unlockQueues = run.sys.chan.unlockQueues)
    (control : ∀ (peer : ProcId) (queue : CUnlockQueue), run.sys.chan.unlockQueues[peer]? = some queue →
      (sys.segments queue.sender).control = (run.sys.segments queue.sender).control) :
    ControlInv queues ⟨sys, run.accepted⟩ := by
  refine ⟨chan.trans inv.kept, fun peer queue member => ?_⟩
  have last : ControlRun.lastInto ⟨sys, run.accepted⟩ queue.sender = run.lastInto queue.sender := by
    unfold ControlRun.lastInto
    rw [chan]
  rw [last]
  exact (inv.holds peer queue member).congr (control peer queue (inv.kept ▸ member))

/-- **One call.** -/
theorem ControlInv.step (inv : ControlInv queues run) (taken : ControlStep run act next) :
    ControlInv queues next := by
  cases taken with
  | traffic act sys step peers =>
    by_cases ours : act = .peers
    · have control := peers ours
      rw [ours] at step
      cases step with
      | peers segments => exact inv.same _ rfl control
    · obtain ⟨chan, control⟩ := step.control ours
      exact inv.same sys chan fun _ queue _ => control queue.sender
  | accept dst data segments accepted =>
    obtain ⟨queue, found, small, stored⟩ := setCtrlMsg_ok accepted
    refine ⟨inv.kept, fun peer other member => ?_⟩
    have last : ControlRun.lastInto
          ⟨{ run.sys with segments := segments }, (dst, data.bytes) :: run.accepted⟩ other.sender
        = if queue.sender = other.sender then data.bytes else run.lastInto other.sender := by
      unfold ControlRun.lastInto
      rw [lastOf_cons]
      dsimp only
      rw [found, Option.map_some]
      simp only [Option.some.injEq, decide_eq_true_eq]
    rw [last, stored]
    split_ifs with same
    · rw [← same]
      dsimp only
      rw [Function.update_self]
      exact (setCtrlMsg_holds small).2
    · dsimp only
      rw [Function.update_of_ne (Ne.symm same)]
      exact inv.holds peer other member
  | refuse dst data err segments refused =>
    exact inv.same _ rfl fun peer queue _ => congrArg (fun segments => (segments queue.sender).control)
      (setCtrlMsg_error refused)
  | getCtrl dst len => exact inv

theorem setCtrlMsg_exact (member : dst ∈ run.sys.chan.unlockQueues) :
    ((∃ err, (run.sys.chan.setCtrlMsg run.sys.segments dst data).1 = .error err) ↔
        kUnlockQueueMaxCtrlMsg < data.bytes.length) ∧
      ∀ err, (run.sys.chan.setCtrlMsg run.sys.segments dst data).1 = .error err →
        (run.sys.chan.setCtrlMsg run.sys.segments dst data).2 = run.sys.segments := by
  have found := Std.TreeMap.getElem?_eq_some_getElem member
  refine ⟨?_, fun err refused => setCtrlMsg_error (Prod.ext refused rfl)⟩
  constructor
  · rintro ⟨err, refused⟩
    by_contra small
    unfold CChannel.setCtrlMsg at refused
    rw [found] at refused
    have stored := (setCtrlMsg_holds (Nat.not_lt.mp small)).1.symm.trans refused
    cases stored
  · intro large
    refine ⟨.kSpaceLimit, ?_⟩
    unfold CChannel.setCtrlMsg
    rw [found]
    exact congrArg Prod.fst (setCtrlMsg_large large)

/-- What a call owes in a state of a run. -/
theorem ControlInv.exact_iff {taken : Machine.Step ControlRun ControlAct} (inv : ControlInv queues taken.before) :
    ControlExact taken ↔ NothingSet taken := by
  obtain ⟨run, act, next⟩ := taken
  unfold ControlExact NothingSet
  cases act with
  | traffic act => exact iff_of_true trivial nofun
  | setCtrl dst data => exact iff_of_true (fun member => setCtrlMsg_exact member) nofun
  | getCtrl dst len =>
    dsimp only at inv ⊢
    have got : ∀ queue, run.sys.chan.unlockQueues[dst]? = some queue →
        (run.sys.chan.getCtrlMsg run.sys.segments dst len = .ok (run.lastFor dst) ↔
          run.lastFor dst = [] ∧ run.lastInto queue.sender = []) := by
      intro queue found
      have holds := inv.holds dst queue (inv.kept ▸ found)
      unfold CChannel.getCtrlMsg
      rw [found, and_comm]
      exact getCtrlMsg_ok_iff holds
    constructor
    · intro owed dst' len' queue same room found
      cases same
      exact (got queue found).mp (owed (UnlockQueueSet.mem_of_some found) room)
    · intro empty member room
      have found := Std.TreeMap.getElem?_eq_some_getElem member
      exact (got _ found).mpr (empty dst len _ rfl room found)

end Register

/-- **The control message register.** In a run that begins with no control message, all calls do what they owe
exactly when no `GetCtrlMsg` is made for a peer that has a message. -/
theorem control_register_iff (chan : CChannel) (segments : Segments)
    (fresh : ∀ (peer : ProcId) (queue : CUnlockQueue), chan.unlockQueues[peer]? = some queue →
      (segments queue.sender).header.ctrlMsgLen = 0)
    (steps : List (Machine.Step ControlRun ControlAct)) (last : ControlRun)
    (run : (controlMachine ⟨⟨chan, segments⟩, []⟩).traced.Run ⟨⟨chan, segments⟩, []⟩ steps last) :
    (∀ taken ∈ steps, ControlExact taken) ↔ ∀ taken ∈ steps, NothingSet taken := by
  have start : ControlInv chan.unlockQueues ⟨⟨chan, segments⟩, []⟩ := by
    refine ⟨rfl, fun peer queue member => ⟨Nat.zero_le _, ?_, List.take_zero⟩⟩
    unfold Queue.control
    dsimp only
    rw [fresh peer queue member]
    rfl
  exact Machine.traced_iff (fun taken inv step _ => inv.step step) (fun taken inv _ => inv.exact_iff) start run

/-- A channel with one peer, and fresh segments. -/
def loneRun : ControlRun :=
  ⟨⟨⟨(∅ : UnlockQueueSet).insert 7 ⟨20, 21, 7⟩, some 7, 0, 1⟩, fun _ => ⟨resetHead 1580, fun _ => 0⟩⟩, []⟩

/-- Before the first message there is the empty one. -/
theorem control_register_iff_fresh : loneRun.sys.chan.getCtrlMsg loneRun.sys.segments 7 512 = .ok [] := by
  have run : (controlMachine loneRun).traced.Run loneRun ([] ++ [⟨loneRun, .getCtrl 7 512, loneRun⟩]) loneRun :=
    .snoc (.nil _) ⟨rfl, rfl, .getCtrl loneRun 7 512⟩
  have nothing : ∀ taken ∈ [] ++ [⟨loneRun, .getCtrl 7 512, loneRun⟩], NothingSet taken := by
    intro taken member dst len queue _ _ _
    rw [List.mem_singleton.mp member]
    exact ⟨rfl, rfl⟩
  have all := (control_register_iff loneRun.sys.chan loneRun.sys.segments (fun _ _ _ => rfl) _ _ run).mpr nothing
  exact all _ List.mem_cons_self (by decide) (by decide)

/-- A message of one byte is accepted, and not got back. -/
theorem control_register_fails_byte : ∃ stored, ControlStep loneRun (.setCtrl 7 ⟨[1], by decide⟩) stored ∧
    stored.lastFor 7 = [1] ∧ stored.sys.chan.getCtrlMsg stored.sys.segments 7 512 = .error .kSpaceLimit ∧
    (controlMachine loneRun).traced.Run loneRun
      ([] ++ [⟨loneRun, .setCtrl 7 ⟨[1], by decide⟩, stored⟩] ++ [⟨stored, .getCtrl 7 512, stored⟩]) stored ∧
    ¬ControlExact ⟨stored, .getCtrl 7 512, stored⟩ := by
  have step := ControlStep.accept loneRun 7 ⟨[1], by decide⟩ _ (Prod.ext rfl rfl)
  refine ⟨_, step, rfl, rfl, .snoc (.snoc (.nil _) ⟨rfl, rfl, step⟩) ⟨rfl, rfl, .getCtrl _ 7 512⟩,
    fun exact => ?_⟩
  cases exact (by decide) (by decide)

end Yarf.Channel
