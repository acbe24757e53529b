/-
**No worker is stranded.**

A length of zero says that a box is empty. A request of no bytes that `DeliverWork` accepts, and an output
of no bytes, are therefore never seen: the worker goes back to the lock and stays in the busy list
(`Pool.Stranded`). Without such a step (`Hollow`) the protocol of `PoolInv` holds, and

* `WorkerInv.advance` — a worker with a request can take a step that brings it nearer to the publication
  of its output;
* `scan_collects` — a call of `HandleBusyThread` takes a worker off the busy list when one can be collected;
* `no_stranded_worker` — no worker is stranded, and every request accepted can be processed and its worker
  come back to the free list.
-/

import Yarf.Thread.FreeThread
import Yarf.Thread.WakeUp

namespace Yarf.Thread

open Lib

/-- Requests of up to 8192 bytes, outputs of up to 16384 bytes, and any buffer. -/
def anyLengths : Lengths := ⟨fun len => len ≤ kMaxInboxLen, fun len => len ≤ kMaxOutboxLen, fun _ => True⟩

section Pools

variable {W : Type}

/-- Between calls, a busy worker waits for a signal that nobody has given, and both its boxes are empty. -/
structure Pool.Stranded (pool : Pool W) (w : W) : Prop where
  idle : pool.main = .idle
  busy : w ∈ pool.busyThreads
  asleep : (pool.worker w).Asleep
  inbox : (pool.worker w).inboxLen = 0
  outbox : (pool.worker w).outboxLen = 0

/-- `DeliverWork` lets a request of no bytes through, or the user's `Process` yields no bytes. -/
def Hollow (before after : Pool W) : Prop :=
  (∃ w, before.main = .deliverTest w [] ∧ after.main = .deliverCopy w []) ∨
    ∃ w input, (before.worker w).pc = .processing input ∧ (after.worker w).pc = .publish 0

end Pools

/-- Runs in which no request and no output is empty. -/
def filledMachine (size : ℕ) (lengths : Lengths) : Machine (Pool (Fin size)) (Actor (Fin size)) :=
  (poolMachine size lengths).restrict fun before after => ¬Hollow before after

/-! ### The protocol -/

section Filled

variable {size : ℕ} {lengths : Lengths} {pool after : Pool (Fin size)} {actor : Actor (Fin size)}

/-- The protocol holds, or would hold without a call of `Process` that is still to be refused. -/
def PoolFilled (pool : Pool (Fin size)) : Prop :=
  PoolHolds pool ∨ ∃ w, pool.main = .deliverTest w [] ∧ PoolHolds { pool with main := .idle }

theorem PoolFilled.holds (filled : PoolFilled pool) (idle : pool.main = .idle) : PoolHolds pool := by
  rcases filled with holds | ⟨w, calls, _⟩
  · exact holds
  · cases idle.symm.trans calls

/-- The call of `Process`. -/
theorem MainStep.calls {w : Fin size} {input : List UInt8} (taken : MainStep lengths pool after)
    (idle : pool.main = .idle) (calls : after.main = .deliverTest w input) :
    after = { pool with main := .deliverTest w input } := by
  cases taken with
  | process input w rest here _ front =>
    cases calls
    rfl
  | stop | processNone => cases idle.symm.trans calls
  | _ => cases calls

/-- `DeliverWork` refuses an empty request, or lets it through. -/
theorem MainStep.refuses {w : Fin size} {input : List UInt8} (taken : MainStep lengths pool after)
    (here : pool.main = .deliverTest w input) :
    after = { pool with main := .idle } ∨ after.main = .deliverCopy w input := by
  cases taken with
  | deliverRefused _ _ at_ _ => exact Or.inl rfl
  | deliverPasses _ _ at_ _ _ =>
    cases here.symm.trans at_
    exact Or.inr rfl
  | stop _ at_ | processNone _ at_ | process _ _ _ at_ | deliverCopy _ _ at_ | deliverLen _ _ at_
  | deliverWake _ _ at_ | handle _ at_ | scanEnd _ _ at_ | scanBusy _ _ _ _ at_ | scanFree _ _ _ _ at_
  | collectSmall _ _ _ _ at_ | collectFits _ _ _ _ at_ | collectNone _ _ _ _ at_
  | collectSome _ _ _ _ at_ | collectRead _ _ _ _ at_ | collectCopy _ _ _ _ at_ | collectLen _ _ _ _ at_
  | collectClear _ _ _ _ _ at_ => cases here.symm.trans at_

/-- **A step that is not hollow** keeps the protocol. -/
theorem PoolFilled.step (filled : PoolFilled pool) (taken : PoolStep lengths pool actor after)
    (full : ¬Hollow pool after) : PoolFilled after := by
  cases taken with
  | main _ step =>
    rcases filled with holds | ⟨w, calls, holds⟩
    · by_cases empty : ∃ w, pool.main = .idle ∧ after.main = .deliverTest w []
      · obtain ⟨w, idle, calls⟩ := empty
        refine Or.inr ⟨w, calls, ?_⟩
        rw [step.calls idle calls]
        show PoolHolds { pool with main := .idle }
        rw [← idle]
        exact holds
      · obtain ⟨stage, served, inv⟩ := holds
        exact Or.inl (inv.mainStep (List.nodup_finRange size)
          (fun w idle calls => empty ⟨w, idle, calls⟩) step)
    · rcases step.refuses calls with rfl | passes
      · exact Or.inl holds
      · exact absurd (Or.inl ⟨w, calls, passes⟩) full
  | worker w worker step =>
    have some : ∀ input, (pool.worker w).pc = .processing input → worker.pc ≠ .publish 0 := by
      intro input here empty
      exact full (Or.inr ⟨w, input, here, by rw [pool.set_self]; exact empty⟩)
    rcases filled with ⟨stage, served, inv⟩ | ⟨owner, calls, stage, served, inv⟩
    · exact Or.inl (inv.run w some step)
    · exact Or.inr ⟨owner, calls, inv.run w some step⟩

end Filled

/-! ### Nobody sleeps on a request -/

/-- A worker has left `Run` only when told to, and is marked busy only while it has a request. -/
structure Worker.Steady (worker : Worker) : Prop where
  stopped : worker.pc = .done → worker.stop = true
  busy : worker.busy = true → ¬worker.pc.Between ∨ worker.pc = .clearBusy

section Alert

variable {W : Type} {lengths : Lengths} {worker next : Worker} {w : W} {main main' : MainPc W}

/-- A worker asleep on a request has the unlock of `DeliverWork` still to come. -/
def Alert (main : MainPc W) (w : W) (worker : Worker) : Prop :=
  worker.Steady ∧ (worker.Asleep → worker.inboxLen ≠ 0 → ∃ input, main = .deliverWake w input)

theorem RunStep.steady (taken : RunStep lengths worker next) (steady : worker.Steady) : next.Steady := by
  cases taken with
  | stopped here told =>
    refine ⟨fun _ => told, fun busy => ?_⟩
    rcases steady.busy busy with outside | clears
    · rw [here] at outside
      exact absurd trivial outside
    · cases here.symm.trans clears
  | looped here | waits here | locks here =>
    refine ⟨nofun, fun busy => ?_⟩
    rcases steady.busy busy with outside | clears
    · rw [here] at outside
      exact absurd trivial outside
    · cases here.symm.trans clears
  | clearsBusy => exact ⟨nofun, nofun⟩
  | clearsInbox => exact ⟨nofun, fun _ => Or.inr rfl⟩
  | finds | setBusy | outboxFull | outboxEmpty | spins | enters | reads | yields | publishes =>
    exact ⟨nofun, fun _ => Or.inl id⟩

theorem Alert.run (alert : Alert main w worker) (taken : RunStep lengths worker next) :
    Alert main w next := by
  refine ⟨taken.steady alert.1, fun asleep full => ?_⟩
  cases taken with
  | waits _ empty => exact absurd empty full
  | stopped | looped | finds | locks | setBusy | outboxFull | outboxEmpty | spins | enters | reads
  | yields | publishes | clearsInbox | clearsBusy => cases asleep.1

/-- The main thread goes from one place outside the unlock to another. -/
theorem Alert.goTo (alert : Alert main w worker) (quiet : ∀ input, main ≠ .deliverWake w input) :
    Alert main' w worker := by
  refine ⟨alert.1, fun asleep full => ?_⟩
  obtain ⟨input, wakes⟩ := alert.2 asleep full
  exact absurd wakes (quiet input)

end Alert

section Alerts

variable {W : Type} [DecidableEq W] {lengths : Lengths} {pool after : Pool W} {actor : Actor W}

def PoolAlert (pool : Pool W) : Prop := ∀ w, Alert pool.main w (pool.worker w)

theorem PoolAlert.update {w : W} {worker : Worker} {main : MainPc W} (mine : Alert main w worker)
    (others : ∀ other, other ≠ w → Alert main other (pool.worker other)) (other : W) :
    Alert main other (Function.update pool.worker w worker other) :=
  (Function.forall_update_iff pool.worker (Alert main)).mpr ⟨mine, others⟩ other

theorem PoolAlert.mainStep (alert : PoolAlert pool) (taken : MainStep lengths pool after) :
    PoolAlert after := by
  cases taken with
  | stop w here =>
    exact PoolAlert.update ⟨⟨fun _ => rfl, (alert w).1.busy⟩, (alert w).2⟩ fun other _ => alert other
  | processNone => exact alert
  | deliverLen w input here =>
    have quiet : ∀ other input, pool.main ≠ .deliverWake other input := by
      rw [here]
      exact nofun
    exact PoolAlert.update ⟨⟨(alert w).1.stopped, (alert w).1.busy⟩, fun _ _ => ⟨input, rfl⟩⟩
      fun other _ => (alert other).goTo (quiet other)
  | deliverWake w input here =>
    refine PoolAlert.update ⟨⟨(alert w).1.stopped, (alert w).1.busy⟩,
      fun asleep => absurd asleep.2 Bool.false_ne_true⟩ fun other apart => (alert other).goTo ?_
    intro input' wakes
    cases here.symm.trans wakes
    exact apart rfl
  | deliverCopy w _ here | collectClear _ w _ _ _ here =>
    have quiet : ∀ other input, pool.main ≠ .deliverWake other input := by
      rw [here]
      exact nofun
    have mine : Alert .idle w (pool.worker w) := (alert w).goTo (quiet w)
    exact PoolAlert.update ⟨⟨mine.1.stopped, mine.1.busy⟩, fun asleep full =>
      (by obtain ⟨_, wakes⟩ := mine.2 asleep full; cases wakes)⟩
      fun other _ => (alert other).goTo (quiet other)
  | process _ _ _ here | deliverRefused _ _ here | deliverPasses _ _ here | handle _ here
  | scanEnd _ _ here | scanBusy _ _ _ _ here | scanFree _ _ _ _ here | collectSmall _ _ _ _ here
  | collectFits _ _ _ _ here | collectNone _ _ _ _ here | collectSome _ _ _ _ here
  | collectRead _ _ _ _ here | collectCopy _ _ _ _ here | collectLen _ _ _ _ here =>
    exact fun other => (alert other).goTo (by rw [here]; exact nofun)

theorem PoolAlert.step (alert : PoolAlert pool) (taken : PoolStep lengths pool actor after) :
    PoolAlert after := by
  cases taken with
  | main _ step => exact alert.mainStep step
  | worker w worker step => exact PoolAlert.update ((alert w).run step) fun other _ => alert other

end Alerts

/-! ### A worker comes to its output -/

/-- Steps of `Run` to the write of `outbox_len_`, on a request. -/
def RunPc.ahead : RunPc → ℕ
  | .publish _ => 1
  | .processing _ => 2
  | .entered _ => 3
  | .readLen => 4
  | .outboxTest => 5
  | .spinning | .setBusy => 6
  | .inboxTest => 7
  | .stopTest | .atLock | .done => 8
  | .clearBusy => 9
  | .clearInbox => 10

/-- Steps of a worker to the state in which its output can be collected. -/
def Worker.ahead (worker : Worker) : ℕ :=
  if worker.outboxLen = 0 then worker.pc.ahead + 2
  else match worker.pc with
    | .clearInbox => 2
    | .clearBusy => 1
    | _ => 0

/-- `HandleBusyThread` finds the worker idle with an output. -/
def Worker.Collectable (worker : Worker) : Prop := worker.busy = false ∧ worker.outboxLen ≠ 0

section Advance

variable {lengths : Lengths} {worker : Worker} {served : List (List UInt8 × List UInt8)} {stage : Stage}

/-- A step towards the output of the worker's request. -/
structure Advance (lengths : Lengths) (worker next : Worker) : Prop where
  taken : RunStep lengths worker next
  filled : ∀ input, worker.pc = .processing input → next.pc ≠ .publish 0
  nearer : next.ahead < worker.ahead
  stop : next.stop = worker.stop

/-- A step before the write of `outbox_len_`. -/
theorem RunStep.advance {next : Worker} {pc : RunPc} (taken : RunStep lengths worker next)
    (none : worker.outboxLen = 0) (here : worker.pc = pc) (nearer : pc.ahead = next.pc.ahead + 1)
    (still : next.outboxLen = worker.outboxLen) (stop : next.stop = worker.stop)
    (filled : next.pc ≠ .publish 0) : Advance lengths worker next := by
  refine ⟨taken, fun _ _ => filled, ?_, stop⟩
  rw [Worker.ahead, if_pos (still.trans none), Worker.ahead, if_pos none, here, nearer]
  exact Nat.add_lt_add_right (Nat.lt_succ_self _) 2

/-- A request that waits comes nearer to the user's `Process`. -/
theorem Worker.advance_pending {input : List UInt8} (holds : BoxHolds worker.inboxLen worker.inbox input)
    (none : worker.outboxLen = 0) (before : worker.pc.Before input.length) (steady : worker.Steady)
    (awake : worker.Asleep → worker.inboxLen = 0) (running : worker.stop = false) :
    ∃ next, Advance lengths worker next := by
  have full := holds.ne_zero
  cases here : worker.pc with
  | stopTest =>
    exact ⟨_, (RunStep.looped worker here running).advance none here rfl rfl rfl nofun⟩
  | inboxTest =>
    exact ⟨_, (RunStep.finds worker here full).advance none here rfl rfl rfl nofun⟩
  | atLock =>
    cases taken : worker.taken with
    | true => exact absurd (awake ⟨here, taken⟩) full
    | false =>
      exact ⟨_, (RunStep.locks worker here taken).advance none here rfl rfl rfl nofun⟩
  | setBusy =>
    exact ⟨_, (RunStep.setBusy worker here).advance none here rfl rfl rfl nofun⟩
  | outboxTest =>
    exact ⟨_, (RunStep.outboxEmpty worker here none).advance none here rfl rfl rfl nofun⟩
  | readLen =>
    exact ⟨_, (RunStep.enters worker here).advance none here rfl rfl rfl nofun⟩
  | entered len =>
    exact ⟨_, (RunStep.reads worker len here).advance none here rfl rfl rfl nofun⟩
  | clearBusy =>
    exact ⟨_, (RunStep.clearsBusy worker here).advance none here rfl rfl rfl nofun⟩
  | done =>
    have told := steady.stopped here
    rw [running] at told
    cases told
  | spinning | processing | publish | clearInbox =>
    rw [here] at before
    cases before

/-- An output that is published comes nearer to the end of `busy_`. -/
theorem Worker.advance_ready (aside : worker.Aside) (published : worker.outboxLen ≠ 0)
    (steady : worker.Steady) (waits : ¬worker.Collectable) : ∃ next, Advance lengths worker next := by
  cases here : worker.pc with
  | clearInbox =>
    refine ⟨_, .clearsInbox worker here, nofun, ?_, rfl⟩
    rw [Worker.ahead, if_neg published, Worker.ahead, if_neg published, here]
    exact Nat.lt_succ_self 1
  | clearBusy =>
    refine ⟨_, .clearsBusy worker here, nofun, ?_, rfl⟩
    rw [Worker.ahead, if_neg published, Worker.ahead, if_neg published, here]
    exact Nat.lt_succ_self 0
  | stopTest | inboxTest | atLock | done =>
    -- `busy_` is cleared already
    refine absurd ⟨?_, published⟩ waits
    by_contra busy
    rw [Bool.not_eq_false] at busy
    rcases steady.busy busy with outside | clears
    · rw [here] at outside
      exact outside trivial
    · cases here.symm.trans clears
  | setBusy | outboxTest | spinning | readLen | entered | processing | publish =>
    rcases aside with ⟨late, _⟩ | ⟨between, _⟩
    · cases here.symm.trans late
    · rw [here] at between
      cases between

/-- **A worker with a request can go on** until its output can be collected. -/
theorem WorkerInv.advance (inv : WorkerInv worker [] served stage) (some : stage ≠ .rest)
    (steady : worker.Steady) (awake : worker.Asleep → worker.inboxLen = 0) (running : worker.stop = false)
    (output : lengths.output 1) (waits : ¬worker.Collectable) : ∃ next, Advance lengths worker next := by
  have boxes := inv.boxes
  cases stage with
  | rest => exact absurd rfl some
  | pending input =>
    obtain ⟨holds, none, before⟩ := boxes
    exact Worker.advance_pending holds none before steady awake running
  | running input =>
    obtain ⟨_, none, here⟩ := boxes
    exact ⟨_, (RunStep.yields worker input [0] here output).advance none here rfl rfl rfl nofun⟩
  | written input result =>
    obtain ⟨_, none, here, holds⟩ := boxes
    refine ⟨_, .publishes worker _ here, nofun, ?_, rfl⟩
    rw [Worker.ahead, if_neg holds.ne_zero, Worker.ahead, if_pos none, here]
    exact Nat.lt_succ_self 2
  | ready input result =>
    obtain ⟨aside, holds⟩ := boxes
    exact Worker.advance_ready aside holds.ne_zero steady waits

end Advance

section Serve

variable {size : ℕ} {lengths : Lengths} {pool after : Pool (Fin size)} {w : Fin size}

theorem not_hollow_run {worker : Worker}
    (filled : ∀ input, (pool.worker w).pc = .processing input → worker.pc ≠ .publish 0) :
    ¬Hollow pool (pool.set w worker) := by
  rintro (⟨owner, here, passes⟩ | ⟨owner, input, here, empty⟩)
  · cases here.symm.trans passes
  · by_cases same : owner = w
    · subst same
      refine filled input here ?_
      rwa [pool.set_self] at empty
    · rw [pool.set_other worker same, here] at empty
      cases empty

/-- **A busy worker comes to its output** while the main thread does nothing. -/
theorem filledMachine_collectable (output : lengths.output 1) (holds : PoolHolds pool)
    (alert : PoolAlert pool) (idle : pool.main = .idle) (member : w ∈ pool.busyThreads)
    (running : (pool.worker w).stop = false) :
    ∃ next, (filledMachine size lengths).Leads pool next ∧ next.main = .idle ∧
      next.busyThreads = pool.busyThreads ∧ (next.worker w).Collectable := by
  -- by induction on the steps the worker still has to make
  induction steps : (pool.worker w).ahead using Nat.strong_induction_on generalizing pool with
  | _ steps ih =>
    by_cases waits : (pool.worker w).Collectable
    · exact ⟨pool, .refl pool, idle, rfl, waits⟩
    obtain ⟨stage, served, inv⟩ := holds
    have quiet : pool.main.inflight w = [] := by
      rw [idle]
      rfl
    have mine := inv.worker w
    rw [quiet] at mine
    have awake : (pool.worker w).Asleep → (pool.worker w).inboxLen = 0 := by
      intro asleep
      by_contra full
      obtain ⟨_, wakes⟩ := (alert w).2 asleep full
      cases idle.symm.trans wakes
    obtain ⟨worker, advance⟩ := mine.advance ((inv.held w).mpr (Or.inl member)) (alert w).1 awake running
      output waits
    have here := pool.set_self w worker
    have taken : PoolStep lengths pool (.worker w) (pool.set w worker) := .worker _ _ _ advance.taken
    obtain ⟨next, leads, rest⟩ := ih worker.ahead (steps ▸ advance.nearer)
      (inv.run w advance.filled advance.taken) (alert.step taken) idle member
      (by rw [here, advance.stop]; exact running) (by rw [here])
    have first := Machine.Leads.step (M := filledMachine size lengths)
      ⟨taken, not_hollow_run advance.filled⟩
    exact ⟨next, first.trans leads, rest⟩

/-! ### A worker comes back -/

theorem MainStep.pc (taken : MainStep lengths pool after) (w : Fin size) :
    (after.worker w).pc = (pool.worker w).pc := by
  have kept : ∀ (owner : Fin size) (worker : Worker), worker.pc = (pool.worker owner).pc →
      (Function.update pool.worker owner worker w).pc = (pool.worker w).pc := by
    intro owner worker same
    have all := (Function.forall_update_iff pool.worker fun w worker => worker.pc = (pool.worker w).pc).mpr
      ⟨same, fun _ _ => rfl⟩
    exact all w
  cases taken with
  | stop | deliverCopy | deliverLen | deliverWake | collectClear => exact kept _ _ rfl
  | processNone | process | deliverRefused | deliverPasses | handle | scanEnd | scanBusy | scanFree
  | collectSmall | collectFits | collectNone | collectSome | collectRead | collectCopy
  | collectLen => rfl

/-- A step of the main thread outside the test of `DeliverWork`. -/
theorem MainStep.not_hollow (taken : MainStep lengths pool after)
    (elsewhere : ∀ w, pool.main ≠ .deliverTest w []) : ¬Hollow pool after := by
  rintro (⟨w, calls, _⟩ | ⟨w, input, here, empty⟩)
  · exact elsewhere w calls
  · rw [taken.pc w, here] at empty
    cases empty

theorem MainStep.leads (taken : MainStep lengths pool after)
    (elsewhere : ∀ w, pool.main ≠ .deliverTest w []) : (filledMachine size lengths).Leads pool after :=
  Machine.Leads.step (M := filledMachine size lengths) ⟨.main _ _ taken, taken.not_hollow elsewhere⟩

theorem filledMachine_next (reached : (filledMachine size lengths).Reachable pool)
    (taken : MainStep lengths pool after) (elsewhere : ∀ w, pool.main ≠ .deliverTest w []) :
    (filledMachine size lengths).Reachable after :=
  reached.next ⟨.main _ _ taken, taken.not_hollow elsewhere⟩

/-- What a call of `HandleBusyThread` that goes through these workers has done when it collects one. -/
structure Collected (workers : Fin size → Worker) (listed : List (Fin size)) (v : Fin size)
    (after : Pool (Fin size)) : Prop where
  idle : after.main = .idle
  free : v ∈ after.freeThreads
  others : ∀ u ∈ listed, u = v ∨ u ∈ after.busyThreads
  fewer : after.busyThreads.length < listed.length
  kept : ∀ u, u ≠ v → after.worker u = workers u

/-- `CollectRsp` on a worker that is idle with an output that fits. -/
theorem collect_run {passed rest : List (Fin size)} {v : Fin size} {room : ℕ}
    (here : pool.main = .collectSize passed v rest room) (some : (pool.worker v).outboxLen ≠ 0)
    (fits : ¬room < (pool.worker v).outboxLen) :
    ∃ after, (filledMachine size lengths).Leads pool after ∧
      Collected pool.worker (passed ++ v :: rest) v after := by
  have sized : (filledMachine size lengths).Leads pool
      { pool with main := .collectEmpty passed v rest room } :=
    MainStep.leads (.collectFits _ _ _ _ _ here fits) (by rw [here]; exact nofun)
  have full : (filledMachine size lengths).Leads { pool with main := .collectEmpty passed v rest room }
      { pool with main := .collectRead passed v rest room } :=
    MainStep.leads (.collectSome _ _ _ _ _ rfl some) nofun
  have read : (filledMachine size lengths).Leads { pool with main := .collectRead passed v rest room }
      { pool with main := .collectCopy passed v rest (pool.worker v).outboxLen } :=
    MainStep.leads (.collectRead _ _ _ _ _ rfl) nofun
  -- the bytes copied
  obtain ⟨output, bytes⟩ : ∃ output, load (pool.worker v).outbox (span 0) (pool.worker v).outboxLen = output :=
    ⟨_, rfl⟩
  have copied : (filledMachine size lengths).Leads
      { pool with main := .collectCopy passed v rest (pool.worker v).outboxLen }
      { pool with main := .collectLen passed v rest output } := by
    rw [← bytes]
    exact MainStep.leads (.collectCopy _ _ _ _ _ rfl) nofun
  have reported : (filledMachine size lengths).Leads { pool with main := .collectLen passed v rest output }
      { pool with main := .collectClear passed v rest output (pool.worker v).outboxLen } :=
    MainStep.leads (.collectLen _ _ _ _ _ rfl) nofun
  refine ⟨_, ((((sized.trans full).trans read).trans copied).trans reported).trans
    (MainStep.leads (.collectClear _ passed v rest _ _ rfl) nofun), rfl, ?_, ?_, ?_, ?_⟩
  · exact List.mem_append_right _ List.mem_cons_self
  · intro u member
    rw [List.mem_append, List.mem_cons] at member
    rcases member with first | same | last
    · exact Or.inr (List.mem_append_left _ first)
    · exact Or.inl same
    · exact Or.inr (List.mem_append_right _ last)
  · show (passed ++ rest).length < (passed ++ v :: rest).length
    rw [List.length_append, List.length_append, List.length_cons]
    omega
  · exact fun u apart => Function.update_of_ne apart _ _

/-- A worker from which nothing can be collected is passed over. -/
theorem scan_passes {passed rest : List (Fin size)} {v : Fin size} {room : ℕ}
    (here : pool.main = .scan passed (v :: rest) room)
    (nothing : (pool.worker v).busy = true ∨ room < (pool.worker v).outboxLen ∨
      (pool.worker v).outboxLen = 0) :
    (filledMachine size lengths).Leads pool { pool with main := .scan (passed ++ [v]) rest room } := by
  cases busy : (pool.worker v).busy with
  | true => exact MainStep.leads (.scanBusy _ _ _ _ _ here busy) (by rw [here]; exact nofun)
  | false =>
    rw [busy] at nothing
    have free : (filledMachine size lengths).Leads pool { pool with main := .collectSize passed v rest room } :=
      MainStep.leads (.scanFree _ _ _ _ _ here busy) (by rw [here]; exact nofun)
    by_cases small : room < (pool.worker v).outboxLen
    · exact free.trans (MainStep.leads (.collectSmall _ _ _ _ _ rfl small) nofun)
    · have none := (nothing.resolve_left Bool.false_ne_true).resolve_left small
      have sized : (filledMachine size lengths).Leads { pool with main := .collectSize passed v rest room }
          { pool with main := .collectEmpty passed v rest room } :=
        MainStep.leads (.collectFits _ _ _ _ _ rfl small) nofun
      exact (free.trans sized).trans (MainStep.leads (.collectNone _ _ _ _ _ rfl none) nofun)

/-- **A call of `HandleBusyThread`** takes a worker off the busy list, when one can be collected. -/
theorem scan_collects {passed rest : List (Fin size)} {room : ℕ}
    (here : pool.main = .scan passed rest room) (member : w ∈ rest)
    (collectable : (pool.worker w).Collectable) (fits : (pool.worker w).outboxLen ≤ room) :
    ∃ after v, (filledMachine size lengths).Leads pool after ∧
      Collected pool.worker (passed ++ rest) v after := by
  induction rest generalizing pool passed with
  | nil => cases member
  | cons v rest ih =>
    by_cases nothing : (pool.worker v).busy = true ∨ room < (pool.worker v).outboxLen ∨
        (pool.worker v).outboxLen = 0
    · have apart : w ≠ v := by
        rintro rfl
        rcases nothing with busy | small | none
        · cases busy.symm.trans collectable.1
        · exact absurd small (Nat.not_lt.mpr fits)
        · exact collectable.2 none
      obtain ⟨after, u, further, collected⟩ :=
        @ih { pool with main := .scan (passed ++ [v]) rest room } (passed ++ [v]) rfl
          ((List.mem_cons.mp member).resolve_left apart) collectable fits
      rw [List.append_assoc] at collected
      exact ⟨after, u, (scan_passes here nothing).trans further, collected⟩
    · rw [not_or, not_or, Bool.not_eq_true] at nothing
      obtain ⟨free, room', some⟩ := nothing
      have calls : (filledMachine size lengths).Leads pool
          { pool with main := .collectSize passed v rest room } :=
        MainStep.leads (.scanFree _ _ _ _ _ here free) (by rw [here]; exact nofun)
      obtain ⟨after, leads, collected⟩ := @collect_run size lengths
        { pool with main := .collectSize passed v rest room } passed rest v room rfl some room'
      exact ⟨after, v, calls.trans leads, collected⟩

/-- **A worker that can be collected comes back**, after as many calls of `HandleBusyThread` as there are
busy workers at most. -/
theorem collectable_returns (buffer : ∀ len, lengths.buffer len) (idle : pool.main = .idle)
    (member : w ∈ pool.busyThreads) (collectable : (pool.worker w).Collectable) :
    ∃ after, (filledMachine size lengths).Leads pool after ∧ after.main = .idle ∧
      w ∈ after.freeThreads := by
  induction count : pool.busyThreads.length using Nat.strong_induction_on generalizing pool with
  | _ count ih =>
    have handles : (filledMachine size lengths).Leads pool
        { pool with main := .scan [] pool.busyThreads (pool.worker w).outboxLen } :=
      MainStep.leads (.handle _ _ idle (buffer _)) (by rw [idle]; exact nofun)
    obtain ⟨after, v, leads, collected⟩ := @scan_collects size lengths
      { pool with main := .scan [] pool.busyThreads (pool.worker w).outboxLen } w [] _ _ rfl member
      collectable le_rfl
    by_cases same : w = v
    · subst same
      exact ⟨after, handles.trans leads, collected.idle, collected.free⟩
    have busy := (collected.others w member).resolve_left same
    obtain ⟨last, further, rest⟩ := ih _ (count ▸ collected.fewer) collected.idle busy
      (by rw [collected.kept w same]; exact collectable) rfl
    exact ⟨last, (handles.trans leads).trans further, rest⟩

end Serve

/-! ### Every run -/

section Runs

variable {size : ℕ} {lengths : Lengths} {pool after : Pool (Fin size)} {w : Fin size}

theorem Pool.Started.alert (started : pool.Started) : PoolAlert pool := by
  obtain ⟨workers, _, _, _⟩ := started
  intro w
  obtain ⟨inbox, outbox, fresh⟩ := workers w
  rw [fresh]
  exact ⟨⟨nofun, nofun⟩, fun _ full => absurd rfl full⟩

theorem filledMachine_inv (reached : (filledMachine size lengths).Reachable pool) :
    PoolFilled pool ∧ PoolAlert pool := by
  have base : ∀ start, (filledMachine size lengths).init start → PoolFilled start ∧ PoolAlert start :=
    fun start started => ⟨Or.inl (Pool.Started.holds started), Pool.Started.alert started⟩
  refine reached.invariant base ?_
  rintro last actor next _ ⟨filled, alert⟩ ⟨taken, full⟩
  exact ⟨filled.step taken full, alert.step taken⟩

theorem filledMachine_leads (leads : (filledMachine size lengths).Leads pool after)
    (filled : PoolFilled pool) : PoolFilled after ∧
      ∀ w, (pool.worker w).log.accepted <+: (after.worker w).log.accepted := by
  have base : PoolFilled pool ∧ ∀ w, (pool.worker w).log.accepted <+: (pool.worker w).log.accepted :=
    ⟨filled, fun _ => List.prefix_rfl⟩
  refine @Machine.Leads.invariant _ _ _ (fun next => PoolFilled next ∧
    ∀ w, (pool.worker w).log.accepted <+: (next.worker w).log.accepted) ?_ _ _ leads base
  rintro last actor next ⟨filled, grown⟩ ⟨taken, full⟩
  exact ⟨filled.step taken full, fun w => (grown w).trans (taken.accepted w)⟩

/-- Between calls a free worker has processed all its requests. -/
theorem PoolHolds.processed (holds : PoolHolds pool) (idle : pool.main = .idle)
    (free : w ∈ pool.freeThreads) : (pool.worker w).log.runs = (pool.worker w).log.accepted := by
  obtain ⟨stage, served, inv⟩ := holds
  have quiet : pool.main.inflight w = [] := by
    rw [idle]
    rfl
  have rest : stage w = .rest := by
    by_contra some
    rcases (inv.held w).mp some with busy | flying
    · exact (List.nodup_append.mp (inv.nodup (List.nodup_finRange size))).2.2 w free w busy rfl
    · exact flying quiet
  have mine := inv.worker w
  rw [quiet, rest] at mine
  have accepted := mine.accepted
  rw [List.append_nil] at accepted
  rw [mine.runs, accepted]
  rfl

/-- A busy worker has a request or its output. -/
theorem PoolHolds.not_stranded (holds : PoolHolds pool) : ¬pool.Stranded w := by
  rintro ⟨_, busy, _, inbox, outbox⟩
  obtain ⟨stage, served, inv⟩ := holds
  have some := (inv.held w).mpr (Or.inl busy)
  have boxes := (inv.worker w).boxes
  generalize stage w = own at some boxes
  cases own with
  | rest => exact some rfl
  | pending | running | written => exact boxes.1.ne_zero inbox
  | ready => exact boxes.2.ne_zero outbox

/-- The worker can come back to the free list with all that was accepted for it processed. -/
def CanReturn (size : ℕ) (pool : Pool (Fin size)) (w : Fin size) : Prop :=
  ∃ after, (filledMachine size anyLengths).Leads pool after ∧ w ∈ after.freeThreads ∧
    (pool.worker w).log.accepted <+: (after.worker w).log.accepted ∧
    (after.worker w).log.runs = (after.worker w).log.accepted

end Runs

/-- **No worker is stranded.** For any number of workers, requests of up to 8192 bytes, outputs of up to
16384 bytes, any buffers and every interleaving in which `DeliverWork` accepts no empty request and no
output is empty: no worker is stranded, and between calls every busy worker that was not told to stop can
process what was accepted for it and come back to the free list. -/
theorem no_stranded_worker (size : ℕ) (pool : Pool (Fin size))
    (reached : (filledMachine size anyLengths).Reachable pool) (w : Fin size) :
    ¬pool.Stranded w ∧
      (pool.main = .idle → w ∈ pool.busyThreads → (pool.worker w).stop = false → CanReturn size pool w) := by
  obtain ⟨filled, alert⟩ := filledMachine_inv reached
  refine ⟨fun stranded => (filled.holds stranded.idle).not_stranded stranded, fun idle busy running => ?_⟩
  have output : anyLengths.output 1 := by
    show 1 ≤ kMaxOutboxLen
    decide
  obtain ⟨middle, serves, idle', same, collectable⟩ :=
    filledMachine_collectable output (filled.holds idle) alert idle busy running
  have buffer : ∀ len, anyLengths.buffer len := fun _ => trivial
  obtain ⟨after, returns, idle'', free⟩ := collectable_returns buffer idle' (same ▸ busy) collectable
  have leads := serves.trans returns
  obtain ⟨filled', grown⟩ := filledMachine_leads leads filled
  exact ⟨after, leads, free, grown w, (filled'.holds idle'').processed idle'' free⟩

/-- A worker that has been given a request of one byte. -/
theorem no_stranded_worker_byte :
    ∃ pool, (filledMachine 1 anyLengths).Reachable pool ∧ pool.busyThreads = [0] ∧
      (pool.worker 0).log.accepted = [[7]] ∧ ¬pool.Stranded 0 ∧ CanReturn 1 pool 0 := by
  have start : (filledMachine 1 anyLengths).Reachable onePool := .start onePool_started
  have calls := filledMachine_next start (.process _ [7] 0 [] rfl (by decide : 1 ≤ kMaxInboxLen) rfl) nofun
  have passes := filledMachine_next calls (.deliverPasses _ 0 [7] rfl rfl (by decide)) nofun
  have copies := filledMachine_next passes (.deliverCopy _ 0 [7] rfl) nofun
  have writes := filledMachine_next copies (.deliverLen _ 0 [7] rfl) nofun
  have wakes := filledMachine_next writes (.deliverWake _ 0 [7] rfl) nofun
  obtain ⟨awake, returns⟩ := no_stranded_worker 1 _ wakes 0
  exact ⟨_, wakes, rfl, rfl, awake, returns rfl List.mem_cons_self rfl⟩

/-- A request of no bytes, and an output of no bytes: the worker is back at the lock and stays in the busy
list. -/
theorem stranded_fails_empty :
    (∃ pool, (poolMachine 1 anyLengths).Reachable pool ∧ (pool.worker 0).log.accepted = [[]] ∧
      pool.Stranded 0) ∧
    ∃ pool, (poolMachine 1 anyLengths).Reachable pool ∧ (pool.worker 0).log.yields = [([7], [])] ∧
      pool.Stranded 0 := by
  have start : (poolMachine 1 anyLengths).Reachable onePool := .start onePool_started
  constructor
  · have unlocked := @poolMachine_delivered _ _ _ [] 0 [] start rfl rfl rfl (Nat.zero_le _) (Nat.zero_le _)
    have looped := unlocked.next (.worker _ 0 _ (.looped _ rfl rfl))
    have waits := looped.next (.worker _ 0 _ (.waits _ rfl rfl))
    have locks := waits.next (.worker _ 0 _ (.locks _ rfl rfl))
    have asleep := locks.next (.worker _ 0 _ (.waits _ rfl rfl))
    exact ⟨_, asleep, rfl, rfl, List.mem_singleton_self 0, ⟨rfl, rfl⟩, rfl, rfl⟩
  · have small : 1 ≤ kMaxInboxLen := by decide
    have unlocked := @poolMachine_delivered _ _ _ [7] 0 [] start rfl rfl rfl small small
    have reads := @poolMachine_atProcess _ _ _ 0 unlocked rfl rfl Nat.one_ne_zero rfl
    have yields := reads.next (.worker _ 0 _ (.yields _ _ [] rfl (Nat.zero_le _)))
    have published := yields.next (.worker _ 0 _ (.publishes _ 0 rfl))
    have cleared := published.next (.worker _ 0 _ (.clearsInbox _ rfl))
    have idle := cleared.next (.worker _ 0 _ (.clearsBusy _ rfl))
    have again := idle.next (.worker _ 0 _ (.looped _ rfl rfl))
    have waits := again.next (.worker _ 0 _ (.waits _ rfl rfl))
    have locks := waits.next (.worker _ 0 _ (.locks _ rfl rfl))
    have asleep := locks.next (.worker _ 0 _ (.waits _ rfl rfl))
    exact ⟨_, asleep, rfl, rfl, List.mem_singleton_self 0, ⟨rfl, rfl⟩, rfl, rfl⟩

end Yarf.Thread
