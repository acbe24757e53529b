/-
**The worker protocol.**

A request passes through the stages of `Stage` on its way through a worker: delivered, given to the
user's `Process`, output written, output published, and collected, when the worker is at rest again.
A stage says where the worker stands and what its boxes hold (`Stage.Boxes`).

* `RunStep.worker_inv` — a worker's step moves the request on, or leaves its stage alone;
* `PoolInv` — every worker has a stage; it is at rest exactly when it is in the free list and not
  being delivered to; the main thread's program counter says what it may rely on;
* `MainStep.pool_inv` — the main thread's steps keep this: it collects only a published output, and
  delivers only to a worker at rest whose `inbox_len_` it has seen to be zero, so that the late writes
  of `inbox_len_` and `busy_` erase nothing;
* `workers_exactly_once` — what follows for every interleaving.
-/

import Yarf.Thread.ThreadPool
import Mathlib.Data.List.FinRange

namespace Yarf.Thread

open Lib

/-- No request and no output is empty. -/
structure Lengths.Positive (lengths : Lengths) : Prop where
  input : ∀ len, lengths.input len → 0 < len
  output : ∀ len, lengths.output len → 0 < len

/-! ### The stages of a request -/

/-- How far the request a worker holds has come. -/
inductive Stage
  /-- No request. -/
  | rest
  /-- Delivered. -/
  | pending (input : List UInt8)
  /-- The user's `Process` has read it. -/
  | running (input : List UInt8)
  /-- The output is in the outbox, `outbox_len_` is not yet written. -/
  | written (input output : List UInt8)
  /-- The output may be collected. -/
  | ready (input output : List UInt8)

namespace Stage

/-- The request, once it is delivered. -/
def given : Stage → List (List UInt8)
  | .rest => []
  | .pending input | .running input | .written input _ | .ready input _ => [input]

/-- The request, once the user's `Process` has it. -/
def runs : Stage → List (List UInt8)
  | .rest | .pending _ => []
  | .running input | .written input _ | .ready input _ => [input]

/-- The request with its output, once that is written. -/
def yields : Stage → List (List UInt8 × List UInt8)
  | .rest | .pending _ | .running _ => []
  | .written input output | .ready input output => [(input, output)]

end Stage

/-- A box with that length field holds these bytes, and at least one. -/
structure BoxHolds (len : ℕ) (box : ℕ → UInt8) (bytes : List UInt8) : Prop where
  positive : 0 < bytes.length
  len : len = bytes.length
  bytes : load box (span 0) bytes.length = bytes

theorem BoxHolds.ne_zero {len : ℕ} {box : ℕ → UInt8} {bytes : List UInt8} (holds : BoxHolds len box bytes) :
    len ≠ 0 := by
  rw [holds.len]
  exact holds.positive.ne'

/-- The part of the loop between two requests. -/
def RunPc.Between : RunPc → Prop
  | .stopTest | .inboxTest | .atLock | .clearBusy | .done => True
  | _ => False

/-- The part of the loop up to the user's `Process`, on a request of that length. -/
def RunPc.Before (len : ℕ) : RunPc → Prop
  | .stopTest | .inboxTest | .atLock | .clearBusy | .done => True
  | .setBusy | .outboxTest | .readLen => True
  | .entered inputLen => inputLen = len
  | _ => False

theorem RunPc.Between.before {pc : RunPc} (between : pc.Between) (len : ℕ) : pc.Before len := by
  cases pc with
  | stopTest | inboxTest | atLock | clearBusy | done => trivial
  | setBusy | outboxTest | spinning | readLen | entered | processing | publish | clearInbox =>
    cases between

/-- The worker is done with its inbox, or has only the late write of `inbox_len_` before it. -/
def Worker.Aside (worker : Worker) : Prop :=
  worker.pc = .clearInbox ∧ worker.inboxLen ≠ 0 ∨ worker.pc.Between ∧ worker.inboxLen = 0

/-- What the worker's boxes hold at each stage, and where it stands. -/
def Stage.Boxes (worker : Worker) : Stage → Prop
  | .rest => worker.Aside ∧ worker.outboxLen = 0
  | .pending input => BoxHolds worker.inboxLen worker.inbox input ∧ worker.outboxLen = 0 ∧
      worker.pc.Before input.length
  | .running input => BoxHolds worker.inboxLen worker.inbox input ∧ worker.outboxLen = 0 ∧
      worker.pc = .processing input
  | .written input output => BoxHolds worker.inboxLen worker.inbox input ∧ worker.outboxLen = 0 ∧
      worker.pc = .publish output.length ∧ BoxHolds output.length worker.outbox output
  | .ready _ output => worker.Aside ∧ BoxHolds worker.outboxLen worker.outbox output

/-- Where the worker may stand at each stage. -/
def Stage.At (pc : RunPc) : Stage → Prop
  | .rest | .ready _ _ => pc = .clearInbox ∨ pc.Between
  | .pending input => pc.Before input.length
  | .running input => pc = .processing input
  | .written _ output => pc = .publish output.length

/-- One worker: `served` are the requests collected, with their outputs; `inflight` is a request whose
delivery has not yet been acknowledged. -/
structure WorkerInv (worker : Worker) (inflight : List (List UInt8))
    (served : List (List UInt8 × List UInt8)) (stage : Stage) : Prop where
  accepted : worker.log.accepted ++ inflight = served.map Prod.fst ++ stage.given
  runs : worker.log.runs = served.map Prod.fst ++ stage.runs
  yields : worker.log.yields = served ++ stage.yields
  collected : worker.log.collected = served.map fun done => (done.2, done.2.length)
  boxes : stage.Boxes worker

/-- What the main thread may rely on while a worker takes steps. -/
inductive Stage.Later : Stage → Stage → Prop
  | same (stage : Stage) : Later stage stage
  | runs (input : List UInt8) : Later (.pending input) (.running input)
  | writes (input output : List UInt8) : Later (.running input) (.written input output)
  | publishes (input output : List UInt8) : Later (.written input output) (.ready input output)

theorem Stage.Later.rest_iff {stage later : Stage} (step : stage.Later later) :
    later = .rest ↔ stage = .rest := by
  cases step with
  | same => exact Iff.rfl
  | runs | writes | publishes => exact ⟨fun same => (by cases same), fun same => (by cases same)⟩

theorem Stage.Later.ready {input output : List UInt8} {later : Stage}
    (step : (Stage.ready input output).Later later) : later = .ready input output := by
  cases step with
  | same => rfl

/-! ### A step of a worker -/

section Run

variable {lengths : Lengths} {worker after : Worker} {inflight : List (List UInt8)}
  {served : List (List UInt8 × List UInt8)} {stage : Stage}

/-- A worker never writes its inbox, and writes only zero to `inbox_len_`. -/
theorem RunStep.inbox (taken : RunStep lengths worker after) :
    after.inbox = worker.inbox ∧ (worker.inboxLen = 0 → after.inboxLen = 0) := by
  cases taken with
  | clearsInbox => exact ⟨rfl, fun _ => rfl⟩
  | _ => exact ⟨rfl, id⟩

/-- A step that changes neither the log nor the stage. -/
theorem WorkerInv.keep (inv : WorkerInv worker inflight served stage) (log : after.log = worker.log)
    (boxes : stage.Boxes after) :
    ∃ later, stage.Later later ∧ WorkerInv after inflight served later := by
  refine ⟨stage, .same stage, ?_, ?_, ?_, ?_, boxes⟩
  · rw [log]
    exact inv.accepted
  · rw [log]
    exact inv.runs
  · rw [log]
    exact inv.yields
  · rw [log]
    exact inv.collected

theorem Worker.Aside.stands (aside : worker.Aside) : worker.pc = .clearInbox ∨ worker.pc.Between :=
  aside.imp And.left And.left

theorem WorkerInv.stands (inv : WorkerInv worker inflight served stage) : stage.At worker.pc := by
  have boxes := inv.boxes
  cases stage with
  | rest => exact boxes.1.stands
  | pending input => exact boxes.2.2
  | running input => exact boxes.2.2
  | written input output => exact boxes.2.2.1
  | ready input output => exact boxes.1.stands

/-- **The loop that should not happen** is not entered. -/
theorem WorkerInv.not_spinning (inv : WorkerInv worker inflight served stage) :
    worker.pc ≠ .spinning := by
  intro here
  have stands := inv.stands
  rw [here] at stands
  cases stage with
  | rest | ready =>
    rcases stands with late | between
    · cases late
    · cases between
  | pending | running | written => cases stands

/-- In the waiting part of the loop the request has not reached the user's `Process`, or is over. -/
theorem WorkerInv.between (inv : WorkerInv worker inflight served stage) (pc : worker.pc.Between) :
    stage = .rest ∨ (∃ input, stage = .pending input) ∨ ∃ input output, stage = .ready input output := by
  have stands := inv.stands
  cases stage with
  | rest => exact Or.inl rfl
  | pending input => exact Or.inr (Or.inl ⟨input, rfl⟩)
  | ready input output => exact Or.inr (Or.inr ⟨input, output, rfl⟩)
  | running input =>
    rw [show worker.pc = _ from stands] at pc
    cases pc
  | written input output =>
    rw [show worker.pc = _ from stands] at pc
    cases pc

/-- Between the read of a full inbox and the user's `Process` the request is pending. -/
theorem WorkerInv.handling (inv : WorkerInv worker inflight served stage) (len : ℕ)
    (before : worker.pc.Before len) (handling : ¬ worker.pc.Between) :
    ∃ input, stage = .pending input := by
  have stands := inv.stands
  cases stage with
  | pending input => exact ⟨input, rfl⟩
  | rest | ready =>
    rcases stands with late | between
    · rw [late] at before
      cases before
    · exact absurd between handling
  | running | written =>
    rw [show worker.pc = _ from stands] at before
    cases before

theorem WorkerInv.processing (inv : WorkerInv worker inflight served stage) {input : List UInt8}
    (here : worker.pc = .processing input) : stage = .running input := by
  have stands := inv.stands
  rw [here] at stands
  cases stage with
  | running input' =>
    cases stands
    rfl
  | rest | ready =>
    rcases stands with late | between
    · cases late
    · cases between
  | pending | written => cases stands

theorem WorkerInv.publishing (inv : WorkerInv worker inflight served stage) {len : ℕ}
    (here : worker.pc = .publish len) :
    ∃ input output, stage = .written input output ∧ len = output.length := by
  have stands := inv.stands
  rw [here] at stands
  cases stage with
  | written input output =>
    cases stands
    exact ⟨input, output, rfl, rfl⟩
  | rest | ready =>
    rcases stands with late | between
    · cases late
    · cases between
  | pending | running => cases stands

/-- The late write of `inbox_len_` finds no request in the inbox. -/
theorem WorkerInv.clearing (inv : WorkerInv worker inflight served stage)
    (here : worker.pc = .clearInbox) :
    stage = .rest ∨ ∃ input output, stage = .ready input output := by
  have stands := inv.stands
  rw [here] at stands
  cases stage with
  | rest => exact Or.inl rfl
  | ready input output => exact Or.inr ⟨input, output, rfl⟩
  | pending | running | written => cases stands

/-- A step between two program counters of the waiting part of the loop. -/
theorem WorkerInv.wait (inv : WorkerInv worker inflight served stage) (pc : worker.pc.Between)
    (pc' : after.pc.Between) (log : after.log = worker.log) (inbox : after.inbox = worker.inbox)
    (inboxLen : after.inboxLen = worker.inboxLen) (outbox : after.outbox = worker.outbox)
    (outboxLen : after.outboxLen = worker.outboxLen) :
    ∃ later, stage.Later later ∧ WorkerInv after inflight served later := by
  refine inv.keep log ?_
  have boxes := inv.boxes
  have aside : worker.Aside → after.Aside := by
    rintro (⟨late, _⟩ | ⟨_, empty⟩)
    · rw [late] at pc
      cases pc
    · exact Or.inr ⟨pc', inboxLen.trans empty⟩
  rcases inv.between pc with rfl | ⟨input, rfl⟩ | ⟨input, output, rfl⟩
  · exact ⟨aside boxes.1, outboxLen.trans boxes.2⟩
  · obtain ⟨holds, empty, _⟩ := boxes
    refine ⟨?_, outboxLen.trans empty, pc'.before _⟩
    rw [inboxLen, inbox]
    exact holds
  · obtain ⟨ended, holds⟩ := boxes
    refine ⟨aside ended, ?_⟩
    rw [outboxLen, outbox]
    exact holds

/-- A step of the loop up to the user's `Process`, on a pending request. -/
theorem WorkerInv.handle (inv : WorkerInv worker inflight served stage)
    (before : worker.pc.Before worker.inboxLen) (handling : ¬ worker.pc.Between)
    (before' : after.pc.Before worker.inboxLen) (log : after.log = worker.log)
    (inbox : after.inbox = worker.inbox) (inboxLen : after.inboxLen = worker.inboxLen)
    (outboxLen : after.outboxLen = worker.outboxLen) :
    ∃ later, stage.Later later ∧ WorkerInv after inflight served later := by
  obtain ⟨input, rfl⟩ := inv.handling _ before handling
  obtain ⟨holds, empty, _⟩ := inv.boxes
  rw [holds.len] at before'
  refine inv.keep log ⟨?_, outboxLen.trans empty, before'⟩
  rw [inboxLen, inbox]
  exact holds

theorem RunStep.filled (positive : lengths.Positive) (taken : RunStep lengths worker after)
    (input : List UInt8) (_ : worker.pc = .processing input) : after.pc ≠ .publish 0 := by
  intro empty
  cases taken with
  | yields input output here room => exact absurd (RunPc.publish.inj empty) (positive.output _ room).ne'
  | _ => cases empty

/-- **A worker's step moves its request on, or leaves its stage alone**, if the output is not empty. -/
theorem RunStep.worker_inv (filled : ∀ input, worker.pc = .processing input → after.pc ≠ .publish 0)
    (taken : RunStep lengths worker after) (inv : WorkerInv worker inflight served stage) :
    ∃ later, stage.Later later ∧ WorkerInv after inflight served later := by
  have boxes := inv.boxes
  cases taken with
  | stopped here | looped here =>
    exact inv.wait (by rw [here]; trivial) trivial rfl rfl rfl rfl rfl
  | waits here _ | locks here _ =>
    exact inv.wait (by rw [here]; trivial) trivial rfl rfl rfl rfl rfl
  | clearsBusy here =>
    exact inv.wait (by rw [here]; trivial) trivial rfl rfl rfl rfl rfl
  | finds here full =>
    have no_aside : ¬ worker.Aside := by
      rintro (⟨late, _⟩ | ⟨_, empty⟩)
      · cases here.symm.trans late
      · exact full empty
    rcases inv.between (by rw [here]; trivial) with rfl | ⟨input, rfl⟩ | ⟨input, output, rfl⟩
    · exact absurd boxes.1 no_aside
    · exact inv.keep rfl ⟨boxes.1, boxes.2.1, trivial⟩
    · exact absurd boxes.1 no_aside
  | setBusy here =>
    exact inv.handle (by rw [here]; trivial) (by rw [here]; exact id) trivial rfl rfl rfl rfl
  | outboxEmpty here _ =>
    exact inv.handle (by rw [here]; trivial) (by rw [here]; exact id) trivial rfl rfl rfl rfl
  | enters here =>
    exact inv.handle (by rw [here]; trivial) (by rw [here]; exact id) rfl rfl rfl rfl rfl
  | outboxFull here full =>
    obtain ⟨input, rfl⟩ := inv.handling 0 (by rw [here]; trivial) (by rw [here]; exact id)
    exact absurd boxes.2.1 full
  | spins here => exact absurd here inv.not_spinning
  | reads inputLen here =>
    obtain ⟨input, rfl⟩ := inv.handling inputLen (by rw [here]; rfl) (by rw [here]; exact id)
    obtain ⟨holds, empty, before⟩ := boxes
    rw [here] at before
    obtain rfl : inputLen = input.length := before
    -- `Process` is given the request's own bytes
    rw [holds.bytes]
    have runs : worker.log.runs ++ [input] = served.map Prod.fst ++ [input] := by
      rw [inv.runs, List.append_assoc]
      rfl
    exact ⟨.running input, .runs input, inv.accepted, runs, inv.yields, inv.collected, holds, empty,
      rfl⟩
  | yields input output here room =>
    obtain rfl := inv.processing here
    obtain ⟨holds, empty, _⟩ := boxes
    have yields : worker.log.yields ++ [(input, output)] = served ++ [(input, output)] := by
      rw [inv.yields, List.append_assoc]
      rfl
    have back := load_write_cells worker.outbox (span 0) output (span_injOn _ _)
    have some : 0 < output.length :=
      Nat.pos_of_ne_zero fun none => filled input here (congrArg RunPc.publish none)
    exact ⟨.written input output, .writes input output, inv.accepted, inv.runs, yields, inv.collected,
      holds, empty, rfl, some, rfl, back⟩
  | publishes len here =>
    obtain ⟨input, output, rfl, rfl⟩ := inv.publishing here
    obtain ⟨full, _, _, holds⟩ := boxes
    exact ⟨.ready input output, .publishes input output, inv.accepted, inv.runs, inv.yields,
      inv.collected, Or.inl ⟨rfl, full.ne_zero⟩, holds⟩
  | clearsInbox here =>
    have aside : Worker.Aside { worker with inboxLen := 0, pc := .clearBusy } := Or.inr ⟨trivial, rfl⟩
    rcases inv.clearing here with rfl | ⟨input, output, rfl⟩
    · exact inv.keep rfl ⟨aside, boxes.2⟩
    · exact inv.keep rfl ⟨aside, boxes.2⟩

end Run

/-! ### The main thread -/

/-- The request whose `inbox_len_` is written while `Process` has not yet returned. -/
def MainPc.inflight {W : Type} [DecidableEq W] (main : MainPc W) (w : W) : List (List UInt8) :=
  match main with
  | .deliverWake owner input => if owner = w then [input] else []
  | _ => []

section Main

variable {W : Type} [DecidableEq W]

/-- What the main thread relies on at its program counter. -/
def MainInv (pool : Pool W) (stage : W → Stage) : MainPc W → Prop
  | .idle => True
  | .deliverTest w input => pool.freeThreads.head? = some w ∧ 0 < input.length
  | .deliverCopy w input => pool.freeThreads.head? = some w ∧ 0 < input.length ∧
      (pool.worker w).inboxLen = 0
  | .deliverLen w input => pool.freeThreads.head? = some w ∧ 0 < input.length ∧
      (pool.worker w).inboxLen = 0 ∧ load (pool.worker w).inbox (span 0) input.length = input
  | .deliverWake w _ => pool.freeThreads.head? = some w
  | .scan passed rest _ => pool.busyThreads = passed ++ rest
  | .collectSize passed w rest _ | .collectEmpty passed w rest _ =>
      pool.busyThreads = passed ++ w :: rest
  | .collectRead passed w rest _ => pool.busyThreads = passed ++ w :: rest ∧
      ∃ input output, stage w = .ready input output
  | .collectCopy passed w rest len => pool.busyThreads = passed ++ w :: rest ∧
      ∃ input output, stage w = .ready input output ∧ len = output.length
  | .collectLen passed w rest output => pool.busyThreads = passed ++ w :: rest ∧
      ∃ input, stage w = .ready input output
  | .collectClear passed w rest output outputLen => pool.busyThreads = passed ++ w :: rest ∧
      ∃ input, stage w = .ready input output ∧ outputLen = output.length

/-- The invariant of the pool, whose workers are `all`. -/
structure PoolInv (all : List W) (pool : Pool W) (stage : W → Stage)
    (served : W → List (List UInt8 × List UInt8)) : Prop where
  lists : (pool.freeThreads ++ pool.busyThreads).Perm all
  worker : ∀ w, WorkerInv (pool.worker w) (pool.main.inflight w) (served w) (stage w)
  held : ∀ w, stage w ≠ .rest ↔ w ∈ pool.busyThreads ∨ pool.main.inflight w ≠ []
  main : MainInv pool stage pool.main

variable {all : List W} {pool after : Pool W} {stage later : W → Stage}
  {served : W → List (List UInt8 × List UInt8)}

omit [DecidableEq W] in
/-- The main thread notices neither a worker's progress nor its late writes. -/
theorem MainInv.congr {main : MainPc W} (inv : MainInv pool stage main)
    (free : after.freeThreads = pool.freeThreads) (busy : after.busyThreads = pool.busyThreads)
    (inbox : ∀ w, (after.worker w).inbox = (pool.worker w).inbox)
    (empty : ∀ w, (pool.worker w).inboxLen = 0 → (after.worker w).inboxLen = 0)
    (ready : ∀ w input output, stage w = .ready input output → later w = .ready input output) :
    MainInv after later main := by
  cases main with
  | idle => trivial
  | deliverTest w input => exact ⟨free ▸ inv.1, inv.2⟩
  | deliverCopy w input => exact ⟨free ▸ inv.1, inv.2.1, empty w inv.2.2⟩
  | deliverLen w input =>
    obtain ⟨first, some, none, bytes⟩ := inv
    refine ⟨free ▸ first, some, empty w none, ?_⟩
    rw [inbox]
    exact bytes
  | deliverWake w input => exact (congrArg List.head? free).trans inv
  | scan passed rest outputLen => exact busy.trans inv
  | collectSize passed w rest outputLen | collectEmpty passed w rest outputLen => exact busy.trans inv
  | collectRead passed w rest outputLen =>
    obtain ⟨split, input, output, here⟩ := inv
    exact ⟨busy.trans split, input, output, ready w input output here⟩
  | collectCopy passed w rest len =>
    obtain ⟨split, input, output, here, same⟩ := inv
    exact ⟨busy.trans split, input, output, ready w input output here, same⟩
  | collectLen passed w rest output =>
    obtain ⟨split, input, here⟩ := inv
    exact ⟨busy.trans split, input, ready w input output here⟩
  | collectClear passed w rest output outputLen =>
    obtain ⟨split, input, here, same⟩ := inv
    exact ⟨busy.trans split, input, ready w input output here, same⟩

/-- A step of the main thread that touches no shared memory but by reading. -/
theorem PoolInv.goTo (inv : PoolInv all pool stage served) {next : MainPc W}
    (before : ∀ w, pool.main.inflight w = []) (quiet : ∀ w, next.inflight w = [])
    (main : MainInv pool stage next) : PoolInv all { pool with main := next } stage served where
  lists := inv.lists
  worker := by
    intro w
    have worker := inv.worker w
    rw [before] at worker
    show WorkerInv _ (next.inflight w) _ _
    rw [quiet]
    exact worker
  held := by
    intro w
    show _ ↔ w ∈ pool.busyThreads ∨ next.inflight w ≠ []
    rw [inv.held w, before, quiet]
  main := main.congr rfl rfl (fun _ => rfl) (fun _ => id) fun _ _ _ => id

/-- A step that changes one worker. -/
theorem PoolInv.update (inv : PoolInv all pool stage served) (w : W) (worker : Worker)
    (next : MainPc W) {own : Stage} {done : List (List UInt8 × List UInt8)} {free busy : List W}
    (lists : (free ++ busy).Perm all) (mine : WorkerInv worker (next.inflight w) done own)
    (held : own ≠ .rest ↔ w ∈ busy ∨ next.inflight w ≠ [])
    (others : ∀ other, other ≠ w → next.inflight other = pool.main.inflight other ∧
      (other ∈ busy ↔ other ∈ pool.busyThreads))
    (main : MainInv ⟨Function.update pool.worker w worker, free, busy, next⟩
      (Function.update stage w own) next) :
    PoolInv all ⟨Function.update pool.worker w worker, free, busy, next⟩
      (Function.update stage w own) (Function.update served w done) where
  lists := lists
  worker := by
    intro other
    by_cases same : other = w
    · subst same
      simp only [Function.update_self]
      exact mine
    · simp only [Function.update_of_ne same, (others other same).1]
      exact inv.worker other
  held := by
    intro other
    by_cases same : other = w
    · subst same
      rw [Function.update_self]
      exact held
    · rw [Function.update_of_ne same, inv.held other, (others other same).1]
      exact or_congr (others other same).2.symm Iff.rfl
  main := main

theorem PoolInv.nodup (inv : PoolInv all pool stage served) (distinct : all.Nodup) :
    (pool.freeThreads ++ pool.busyThreads).Nodup :=
  inv.lists.nodup_iff.mpr distinct

/-- The worker at the front of the free list is at rest, unless it is being delivered to. -/
theorem PoolInv.front_rest (inv : PoolInv all pool stage served) (distinct : all.Nodup) {w : W}
    (front : pool.freeThreads.head? = some w) (quiet : pool.main.inflight w = []) :
    stage w = .rest := by
  by_contra some
  obtain ⟨rest, split⟩ := List.head?_eq_some_iff.mp front
  rcases (inv.held w).mp some with busy | flying
  · have apart := inv.nodup distinct
    rw [split] at apart
    exact (List.nodup_append.mp apart).2.2 w List.mem_cons_self w busy rfl
  · exact flying quiet

/-- **A worker's step keeps the invariant.** -/
theorem PoolInv.run {lengths : Lengths} (inv : PoolInv all pool stage served) (w : W) {worker : Worker}
    (filled : ∀ input, (pool.worker w).pc = .processing input → worker.pc ≠ .publish 0)
    (taken : RunStep lengths (pool.worker w) worker) :
    ∃ later served', PoolInv all (pool.set w worker) later served' := by
  obtain ⟨own, step, mine⟩ := taken.worker_inv filled (inv.worker w)
  obtain ⟨inbox, empty⟩ := taken.inbox
  have held : own ≠ .rest ↔ w ∈ pool.busyThreads ∨ pool.main.inflight w ≠ [] := by
    rw [← inv.held w, Ne, Ne, step.rest_iff]
  refine ⟨_, _, inv.update w _ _ inv.lists mine held (fun _ _ => ⟨rfl, Iff.rfl⟩) ?_⟩
  refine inv.main.congr rfl rfl ?_ ?_ ?_
  · intro other
    by_cases same : other = w
    · subst same
      exact (congrArg Worker.inbox (Function.update_self _ _ _)).trans inbox
    · exact congrArg Worker.inbox (Function.update_of_ne same _ _)
  · intro other none
    by_cases same : other = w
    · subst same
      exact (congrArg Worker.inboxLen (Function.update_self _ _ _)).trans (empty none)
    · exact (congrArg Worker.inboxLen (Function.update_of_ne same _ _)).trans none
  · intro other input output here
    by_cases same : other = w
    · subst same
      rw [here] at step
      rw [Function.update_self]
      exact step.ready
    · rw [Function.update_of_ne same]
      exact here

/-- A worker whose inbox is seen empty is not about to empty it. -/
theorem WorkerInv.pending_at {worker : Worker} {inflight : List (List UInt8)}
    {done : List (List UInt8 × List UInt8)} (inv : WorkerInv worker inflight done .rest)
    (none : worker.inboxLen = 0) : worker.pc.Between := by
  rcases inv.boxes.1 with ⟨_, some⟩ | ⟨between, _⟩
  · exact absurd none some
  · exact between

/-- A nonempty outbox holds the output of the worker's request. -/
theorem WorkerInv.published {worker : Worker} {inflight : List (List UInt8)}
    {done : List (List UInt8 × List UInt8)} {stage : Stage}
    (inv : WorkerInv worker inflight done stage) (full : worker.outboxLen ≠ 0) :
    ∃ input output, stage = .ready input output := by
  have boxes := inv.boxes
  cases stage with
  | rest => exact absurd boxes.2 full
  | pending => exact absurd boxes.2.1 full
  | running => exact absurd boxes.2.1 full
  | written => exact absurd boxes.2.1 full
  | ready input output => exact ⟨input, output, rfl⟩

/-- **The write of `inbox_len_`** makes the request pending. -/
theorem WorkerInv.deliver {worker : Worker} {done : List (List UInt8 × List UInt8)}
    {input : List UInt8} (inv : WorkerInv worker [] done .rest) (some : 0 < input.length)
    (none : worker.inboxLen = 0) (bytes : load worker.inbox (span 0) input.length = input) :
    WorkerInv { worker with inboxLen := input.length } [input] done (.pending input) where
  accepted := by
    have accepted := inv.accepted
    rw [List.append_nil] at accepted
    show worker.log.accepted ++ [input] = _
    rw [accepted, List.append_assoc]
    rfl
  runs := inv.runs
  yields := inv.yields
  collected := inv.collected
  boxes := ⟨⟨some, rfl, bytes⟩, inv.boxes.2, (inv.pending_at none).before _⟩

/-- **The return of `Process`** acknowledges the request. -/
theorem WorkerInv.acknowledge {worker : Worker} {done : List (List UInt8 × List UInt8)}
    {input : List UInt8} {stage : Stage} (inv : WorkerInv worker [input] done stage) :
    WorkerInv { worker with
      taken := false
      log := { worker.log with accepted := worker.log.accepted ++ [input] } } [] done stage where
  accepted := by
    show worker.log.accepted ++ [input] ++ [] = _
    rw [List.append_nil]
    exact inv.accepted
  runs := inv.runs
  yields := inv.yields
  collected := inv.collected
  boxes := inv.boxes

/-- **The last write of `CollectRsp`** puts the worker at rest. -/
theorem WorkerInv.collect {worker : Worker} {inflight : List (List UInt8)}
    {done : List (List UInt8 × List UInt8)} {input output : List UInt8}
    (inv : WorkerInv worker inflight done (.ready input output)) :
    WorkerInv { worker with
      outboxLen := 0
      log := { worker.log with
        collected := worker.log.collected ++ [(output, output.length)] } } inflight
      (done ++ [(input, output)]) .rest where
  accepted := by
    rw [inv.accepted, List.map_append]
    exact (List.append_nil _).symm
  runs := by
    rw [inv.runs, List.map_append]
    exact (List.append_nil _).symm
  yields := by
    rw [inv.yields]
    exact (List.append_nil _).symm
  collected := by
    show worker.log.collected ++ [(output, output.length)] = _
    rw [inv.collected, List.map_append]
    rfl
  boxes := ⟨inv.boxes.1, rfl⟩

/-- **The copy into the inbox** of the worker at the front. -/
theorem PoolInv.deliverCopy (distinct : all.Nodup) (inv : PoolInv all pool stage served) {w : W}
    {input : List UInt8} (here : pool.main = .deliverCopy w input) :
    ∃ later served', PoolInv all { pool.set w { pool.worker w with
      inbox := write (pool.worker w).inbox (cells (span 0) input) } with
      main := .deliverLen w input } later served' := by
  have main := inv.main
  rw [here] at main
  obtain ⟨front, some, none⟩ := main
  have quiet : pool.main.inflight w = [] := by
    rw [here]
    rfl
  have rest := inv.front_rest distinct front quiet
  have mine := inv.worker w
  have held := inv.held w
  rw [quiet, rest] at mine
  rw [quiet, rest] at held
  have back := load_write_cells (pool.worker w).inbox (span 0) input (span_injOn _ _)
  refine ⟨_, _, inv.update w _ _ inv.lists
    ⟨mine.accepted, mine.runs, mine.yields, mine.collected, mine.boxes⟩ held
    (fun other _ => ⟨by rw [here]; rfl, Iff.rfl⟩) ⟨front, some, ?_, ?_⟩⟩
  · show ((Function.update pool.worker w _) w).inboxLen = 0
    rw [Function.update_self]
    exact none
  · show load ((Function.update pool.worker w _) w).inbox (span 0) input.length = input
    rw [Function.update_self]
    exact back

/-- **The write of its length.** -/
theorem PoolInv.deliverLen (distinct : all.Nodup) (inv : PoolInv all pool stage served) {w : W}
    {input : List UInt8} (here : pool.main = .deliverLen w input) :
    ∃ later served', PoolInv all { pool.set w { pool.worker w with inboxLen := input.length } with
      main := .deliverWake w input } later served' := by
  have main := inv.main
  rw [here] at main
  obtain ⟨front, some, none, bytes⟩ := main
  have quiet : pool.main.inflight w = [] := by
    rw [here]
    rfl
  have rest := inv.front_rest distinct front quiet
  have mine := inv.worker w
  rw [quiet, rest] at mine
  have flying : (MainPc.deliverWake w input).inflight w = [input] := if_pos rfl
  refine ⟨_, _, inv.update w _ (.deliverWake w input) inv.lists
    (flying.symm ▸ mine.deliver some none bytes)
    ⟨fun _ => Or.inr (by rw [flying]; exact List.cons_ne_nil _ _), fun _ => Stage.noConfusion⟩
    (fun other apart => ⟨?_, Iff.rfl⟩) front⟩
  rw [here]
  exact if_neg apart.symm

/-- **The return of `Process`**: the worker is in the busy list. -/
theorem PoolInv.deliverWake (inv : PoolInv all pool stage served) {w : W} {input : List UInt8}
    (here : pool.main = .deliverWake w input) :
    ∃ later served', PoolInv all { pool.set w { pool.worker w with
        taken := false
        log := { (pool.worker w).log with
          accepted := (pool.worker w).log.accepted ++ [input] } } with
      freeThreads := pool.freeThreads.tail
      busyThreads := pool.busyThreads ++ [w]
      main := .idle } later served' := by
  have main := inv.main
  rw [here] at main
  obtain ⟨rest, split⟩ := List.head?_eq_some_iff.mp main
  have flying : pool.main.inflight w = [input] := by
    rw [here]
    exact if_pos rfl
  have mine := inv.worker w
  rw [flying] at mine
  have some : stage w ≠ .rest := (inv.held w).mpr (Or.inr (by rw [flying]; exact List.cons_ne_nil _ _))
  have lists : (pool.freeThreads.tail ++ (pool.busyThreads ++ [w])).Perm all := by
    refine List.Perm.trans ?_ inv.lists
    rw [split, List.tail_cons, ← List.append_assoc]
    exact List.perm_append_comm
  refine ⟨_, _, inv.update w _ .idle lists mine.acknowledge
    ⟨fun _ => Or.inl (List.mem_append_right _ List.mem_cons_self), fun _ => some⟩
    (fun other apart => ⟨?_, ?_⟩) trivial⟩
  · rw [here]
    exact (if_neg apart.symm).symm
  · rw [List.mem_append, List.mem_singleton]
    exact or_iff_left apart

/-- **The last write of `CollectRsp`**: the worker is back in the free list. -/
theorem PoolInv.collectClear (distinct : all.Nodup) (inv : PoolInv all pool stage served)
    {passed rest : List W} {w : W} {output : List UInt8} {outputLen : ℕ}
    (here : pool.main = .collectClear passed w rest output outputLen) :
    ∃ later served', PoolInv all { pool.set w { pool.worker w with
        outboxLen := 0
        log := { (pool.worker w).log with
          collected := (pool.worker w).log.collected ++ [(output, outputLen)] } } with
      freeThreads := pool.freeThreads ++ [w]
      busyThreads := passed ++ rest
      main := .idle } later served' := by
  have main := inv.main
  rw [here] at main
  obtain ⟨split, input, ready, rfl⟩ := main
  have quiet : ∀ other, pool.main.inflight other = [] := by
    rw [here]
    exact fun _ => rfl
  have mine := inv.worker w
  rw [quiet, ready] at mine
  have apart := inv.nodup distinct
  rw [split] at apart
  have gone : w ∉ passed ++ rest :=
    (List.nodup_middle.mp (List.nodup_append.mp apart).2.1).notMem
  have lists : (pool.freeThreads ++ [w] ++ (passed ++ rest)).Perm all := by
    refine List.Perm.trans ?_ inv.lists
    rw [split, List.append_assoc, List.singleton_append]
    exact List.Perm.append_left _ List.perm_middle.symm
  refine ⟨_, _, inv.update w _ .idle lists mine.collect
    ⟨fun absurd_ => (absurd_ rfl).elim, fun busy => ?_⟩ (fun other apart => ⟨?_, ?_⟩) trivial⟩
  · rcases busy with inside | flying
    · exact absurd inside gone
    · exact absurd rfl flying
  · exact (quiet other).symm
  · rw [split, List.mem_append, List.mem_append, List.mem_cons]
    exact or_congr Iff.rfl (or_iff_right apart).symm

theorem MainStep.filled {lengths : Lengths} (positive : lengths.Positive)
    (taken : MainStep lengths pool after) (w : W) (idle : pool.main = .idle) :
    after.main ≠ .deliverTest w [] := by
  intro empty
  cases taken with
  | process input w rest here length front =>
    cases empty
    exact absurd (positive.input _ length) (Nat.lt_irrefl 0)
  | stop | processNone => cases idle.symm.trans empty
  | _ => cases empty

/-- **The main thread's steps keep the invariant**, if `Process` is not called with an empty request. -/
theorem PoolInv.mainStep {lengths : Lengths} (distinct : all.Nodup)
    (filled : ∀ w, pool.main = .idle → after.main ≠ .deliverTest w [])
    (inv : PoolInv all pool stage served) (taken : MainStep lengths pool after) :
    ∃ later served', PoolInv all after later served' := by
  have main := inv.main
  cases taken with
  | stop w here =>
    have mine := inv.worker w
    have kept := inv.update w { pool.worker w with stop := true } pool.main inv.lists
      ⟨mine.accepted, mine.runs, mine.yields, mine.collected, mine.boxes⟩ (inv.held w)
      (fun _ _ => ⟨rfl, Iff.rfl⟩) (by rw [here]; trivial)
    exact ⟨_, _, kept⟩
  | processNone => exact ⟨_, _, inv⟩
  | process input w rest here length front =>
    refine ⟨_, _, inv.goTo (by rw [here]; exact fun _ => rfl) (fun _ => rfl) ⟨?_, ?_⟩⟩
    · rw [front]
      rfl
    · exact List.length_pos_iff.mpr fun none => filled w here (congrArg (MainPc.deliverTest w) none)
  | deliverRefused w input here _ =>
    exact ⟨_, _, inv.goTo (by rw [here]; exact fun _ => rfl) (fun _ => rfl) trivial⟩
  | deliverPasses w input here none _ =>
    rw [here] at main
    exact ⟨_, _, inv.goTo (by rw [here]; exact fun _ => rfl) (fun _ => rfl)
      ⟨main.1, main.2, none⟩⟩
  | deliverCopy w input here => exact inv.deliverCopy distinct here
  | deliverLen w input here => exact inv.deliverLen distinct here
  | deliverWake w input here => exact inv.deliverWake here
  | handle outputLen here _ =>
    exact ⟨_, _, inv.goTo (by rw [here]; exact fun _ => rfl) (fun _ => rfl) rfl⟩
  | scanEnd passed outputLen here =>
    exact ⟨_, _, inv.goTo (by rw [here]; exact fun _ => rfl) (fun _ => rfl) trivial⟩
  | scanBusy passed w rest outputLen here _ =>
    rw [here] at main
    refine ⟨_, _, inv.goTo (by rw [here]; exact fun _ => rfl) (fun _ => rfl) ?_⟩
    exact main.trans (List.append_cons _ _ _)
  | scanFree passed w rest outputLen here _ =>
    rw [here] at main
    exact ⟨_, _, inv.goTo (by rw [here]; exact fun _ => rfl) (fun _ => rfl) main⟩
  | collectSmall passed w rest outputLen here _ =>
    rw [here] at main
    refine ⟨_, _, inv.goTo (by rw [here]; exact fun _ => rfl) (fun _ => rfl) ?_⟩
    exact main.trans (List.append_cons _ _ _)
  | collectFits passed w rest outputLen here _ =>
    rw [here] at main
    exact ⟨_, _, inv.goTo (by rw [here]; exact fun _ => rfl) (fun _ => rfl) main⟩
  | collectNone passed w rest outputLen here _ =>
    rw [here] at main
    refine ⟨_, _, inv.goTo (by rw [here]; exact fun _ => rfl) (fun _ => rfl) ?_⟩
    exact main.trans (List.append_cons _ _ _)
  | collectSome passed w rest outputLen here full =>
    rw [here] at main
    exact ⟨_, _, inv.goTo (by rw [here]; exact fun _ => rfl) (fun _ => rfl)
      ⟨main, (inv.worker w).published full⟩⟩
  | collectRead passed w rest outputLen here =>
    rw [here] at main
    obtain ⟨split, input, output, ready⟩ := main
    have boxes := (inv.worker w).boxes
    rw [ready] at boxes
    exact ⟨_, _, inv.goTo (by rw [here]; exact fun _ => rfl) (fun _ => rfl)
      ⟨split, input, output, ready, boxes.2.len⟩⟩
  | collectCopy passed w rest len here =>
    rw [here] at main
    obtain ⟨split, input, output, ready, rfl⟩ := main
    have boxes := (inv.worker w).boxes
    rw [ready] at boxes
    rw [boxes.2.bytes]
    exact ⟨_, _, inv.goTo (by rw [here]; exact fun _ => rfl) (fun _ => rfl) ⟨split, input, ready⟩⟩
  | collectLen passed w rest output here =>
    rw [here] at main
    obtain ⟨split, input, ready⟩ := main
    have boxes := (inv.worker w).boxes
    rw [ready] at boxes
    exact ⟨_, _, inv.goTo (by rw [here]; exact fun _ => rfl) (fun _ => rfl)
      ⟨split, input, ready, boxes.2.len⟩⟩
  | collectClear passed w rest output outputLen here => exact inv.collectClear distinct here

end Main

/-! ### Every interleaving -/

/-- Some stages and served requests fit the state. -/
def PoolHolds {size : ℕ} (pool : Pool (Fin size)) : Prop :=
  ∃ stage served, PoolInv (List.finRange size) pool stage served

theorem Pool.Started.holds {size : ℕ} {pool : Pool (Fin size)} (started : pool.Started) :
    PoolHolds pool := by
  obtain ⟨workers, free, busy, idle⟩ := started
  refine ⟨fun _ => .rest, fun _ => [], ?_, fun w => ?_, fun w => ?_, ?_⟩
  · rw [free, busy, List.append_nil]
  · obtain ⟨inbox, outbox, fresh⟩ := workers w
    rw [fresh, idle]
    exact ⟨rfl, rfl, rfl, rfl, Or.inr ⟨trivial, rfl⟩, rfl⟩
  · rw [busy, idle]
    exact ⟨fun moved => absurd rfl moved, fun moved => moved.elim (fun inside => by cases inside)
      fun flying => absurd rfl flying⟩
  · rw [idle]
    trivial

/-- **Every reachable state satisfies the invariant.** -/
theorem poolMachine_holds {size : ℕ} {lengths : Lengths} (positive : lengths.Positive)
    {pool : Pool (Fin size)} (reached : (poolMachine size lengths).Reachable pool) :
    PoolHolds pool := by
  refine reached.invariant ?_ ?_
  · exact fun _ started => Pool.Started.holds started
  · rintro last actor next _ ⟨stage, served, inv⟩ taken
    cases taken with
    | main _ step => exact inv.mainStep (List.nodup_finRange size) (step.filled positive) step
    | worker w after step => exact inv.run w (step.filled positive) step

/-- What has become of the requests of one worker. `inflight` is the request that `Process` is just
handing over. -/
structure Worker.ExactlyOnce (worker : Worker) (inflight : List (List UInt8)) : Prop where
  /-- The `k`-th call of the user's `Process` gets the bytes of the `k`-th request. -/
  given : worker.log.runs <+: worker.log.accepted ++ inflight
  /-- The `k`-th output was written for the `k`-th input. -/
  yielded : worker.log.yields.map Prod.fst <+: worker.log.runs
  /-- The `k`-th collection hands out the `k`-th output, whole, and that of an accepted request. -/
  collected : worker.log.collected <+: worker.log.yields.map fun done => (done.2, done.2.length)
  acknowledged : (worker.log.yields.take worker.log.collected.length).map Prod.fst
    <+: worker.log.accepted
  /-- All accepted requests but the last one have been collected. -/
  bound : worker.log.accepted.length ≤ worker.log.collected.length + 1
  /-- An accepted request that has not been collected is in a box of the worker: its input in the
  inbox, or the output written for it in the outbox. -/
  held : ∀ input, worker.log.accepted[worker.log.collected.length]? = some input →
    BoxHolds worker.inboxLen worker.inbox input ∨
      ∃ output, worker.log.yields[worker.log.collected.length]? = some (input, output) ∧
        BoxHolds worker.outboxLen worker.outbox output

section Once

variable {worker : Worker} {inflight : List (List UInt8)} {served : List (List UInt8 × List UInt8)}
  {stage : Stage}

theorem Stage.runs_prefix (stage : Stage) : stage.runs <+: stage.given := by
  cases stage with
  | rest => exact List.nil_prefix
  | pending => exact List.nil_prefix
  | running | written | ready => exact List.prefix_rfl

theorem Stage.yields_prefix (stage : Stage) : stage.yields.map Prod.fst <+: stage.runs := by
  cases stage with
  | rest | pending | running => exact List.nil_prefix
  | written | ready => exact List.prefix_rfl

/-- The requests served are among those acknowledged: only an undelivered one is in flight. -/
theorem WorkerInv.served_accepted (inv : WorkerInv worker inflight served stage)
    (flight : inflight = [] ∨ stage ≠ .rest ∧ inflight.length = 1) :
    ∃ rest, worker.log.accepted = served.map Prod.fst ++ rest ∧ rest ++ inflight = stage.given := by
  have accepted := inv.accepted
  rcases flight with rfl | ⟨some, one⟩
  · rw [List.append_nil] at accepted
    exact ⟨stage.given, accepted, List.append_nil _⟩
  · obtain ⟨input, rfl⟩ := List.length_eq_one_iff.mp one
    have given : ∃ request, stage.given = [request] := by
      cases stage with
      | rest => exact absurd rfl some
      | pending input | running input => exact ⟨input, rfl⟩
      | written input | ready input => exact ⟨input, rfl⟩
    obtain ⟨request, given⟩ := given
    rw [given] at accepted
    obtain ⟨front, same⟩ := List.append_inj' accepted rfl
    exact ⟨[], by rw [front, List.append_nil], by rw [given, ← same]; rfl⟩

theorem WorkerInv.exactlyOnce (inv : WorkerInv worker inflight served stage)
    (flight : inflight = [] ∨ stage ≠ .rest ∧ inflight.length = 1) :
    worker.ExactlyOnce inflight := by
  obtain ⟨rest, accepted, given⟩ := inv.served_accepted flight
  have count : worker.log.collected.length = served.length := by
    rw [inv.collected, List.length_map]
  have size : rest.length ≤ 1 := by
    have whole := congrArg List.length given
    rw [List.length_append] at whole
    have short : stage.given.length ≤ 1 := by
      cases stage with
      | rest => exact Nat.zero_le 1
      | pending | running | written | ready => exact le_rfl
    omega
  refine ⟨?_, ?_, ?_, ?_, ?_, ?_⟩
  · rw [inv.runs, inv.accepted]
    exact (List.prefix_append_right_inj _).mpr stage.runs_prefix
  · rw [inv.yields, inv.runs, List.map_append]
    exact (List.prefix_append_right_inj _).mpr stage.yields_prefix
  · rw [inv.yields, inv.collected, List.map_append]
    exact List.prefix_append _ _
  · rw [inv.yields, count, List.take_left' rfl, accepted]
    exact List.prefix_append _ _
  · rw [accepted, count, List.length_append, List.length_map]
    omega
  · intro input next
    rw [accepted, count, List.getElem?_append_right (by rw [List.length_map]), List.length_map,
      Nat.sub_self] at next
    have here : stage.given[0]? = some input := by
      rw [← given]
      cases rest with
      | nil => cases next
      | cons first rest => exact next
    have boxes := inv.boxes
    cases stage with
    | rest => cases here
    | pending input' | running input' =>
      cases here
      exact Or.inl boxes.1
    | written input' output =>
      cases here
      exact Or.inl boxes.1
    | ready input' output =>
      cases here
      refine Or.inr ⟨output, ?_, boxes.2⟩
      rw [inv.yields, count, List.getElem?_append_right le_rfl, Nat.sub_self]
      rfl

end Once

/-- Requests of `1..8192` bytes, outputs of `1..16384` bytes, and a caller's buffer for the longest. -/
def fullBuffers : Lengths where
  input len := 1 ≤ len ∧ len ≤ kMaxInboxLen
  output len := 1 ≤ len ∧ len ≤ kMaxOutboxLen
  buffer len := len = kMaxOutboxLen

theorem fullBuffers_positive : fullBuffers.Positive := ⟨fun _ room => room.1, fun _ room => room.1⟩

end Yarf.Thread
