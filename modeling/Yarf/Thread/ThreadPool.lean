/-
**The thread pool** (`thread_pool.h`, `thread_pool.cc`, `thread.h`).

Every step is one access to shared memory: a read or a write of `busy_`, `inbox_len_`, `outbox_len_`
or `stop_`, a copy of a box, or an operation on `wake_signal_`. What a thread does with its own
variables in between belongs to the step before it. `RunStep` is a worker in `Run`; `MainStep` is the
main thread in `CThreadPool::Process` (with `DeliverWork`) and `HandleBusyThread` (with `CollectRsp`).

`wake_signal_` is used across threads, so it is a binary semaphore: `taken` until the main thread
unlocks it, and an unlock of a free one changes nothing. The pool's lists hold workers, never null
pointers: `Init` calls a method on each worker before it stores it.

The `log` of a worker is not in the source. It records what the statements are about: which requests
were accepted for the worker, which inputs its user code was given, what that returned, and what was
collected.
-/

import Yarf.Err
import Yarf.Lib.Bytes
import Yarf.Lib.Machine

namespace Yarf.Thread

open Lib

def kMaxInboxLen : ℕ := 8 * 1024

def kMaxOutboxLen : ℕ := 16 * 1024

/-! ### State -/

/-- Where a worker stands in `Run`. -/
inductive RunPc
  /-- Before the read of `stop_`. -/
  | stopTest
  /-- Before the read of `inbox_len_` in the waiting loop. -/
  | inboxTest
  /-- At the lock of `wake_signal_`. -/
  | atLock
  | setBusy
  /-- Before the read of `outbox_len_`. -/
  | outboxTest
  /-- In the loop that should not happen. -/
  | spinning
  /-- Before the read of `inbox_len_` for the call of the user's `Process`. -/
  | readLen
  /-- In the user's `Process`, which has not yet read its input. -/
  | entered (inputLen : ℕ)
  /-- In the user's `Process`, which has read this input. -/
  | processing (input : List UInt8)
  /-- Before the write of `outbox_len_`. -/
  | publish (curOutboxLen : ℕ)
  | clearInbox
  | clearBusy
  /-- `Run` has returned. -/
  | done

/-- What an observer notes about a worker. -/
structure Log where
  /-- The inputs for which `CThreadPool::Process` returned `kOk`. -/
  accepted : List (List UInt8)
  /-- The inputs the user's `Process` was given. -/
  runs : List (List UInt8)
  /-- The inputs it was given with the outputs it wrote. -/
  yields : List (List UInt8 × List UInt8)
  /-- What `HandleBusyThread` handed out: the bytes copied and the length reported. -/
  collected : List (List UInt8 × ℕ)

structure Worker where
  stop : Bool
  busy : Bool
  /-- `wake_signal_` is locked. -/
  taken : Bool
  inboxLen : ℕ
  inbox : ℕ → UInt8
  outboxLen : ℕ
  outbox : ℕ → UInt8
  pc : RunPc
  log : Log

/-- A worker after `CThreadPoolWorker::Init` and `Start`: its boxes hold anything. -/
def Worker.init (inbox outbox : ℕ → UInt8) : Worker where
  stop := false
  busy := false
  taken := true
  inboxLen := 0
  inbox := inbox
  outboxLen := 0
  outbox := outbox
  pc := .stopTest
  log := ⟨[], [], [], []⟩

/-- Where the main thread stands. `w` is the worker whose members it touches; in `HandleBusyThread`
the workers before the iterator are `passed`, those behind it `rest`. -/
inductive MainPc (W : Type)
  | idle
  /-- Before the first test of `DeliverWork`. -/
  | deliverTest (w : W) (input : List UInt8)
  | deliverCopy (w : W) (input : List UInt8)
  | deliverLen (w : W) (input : List UInt8)
  | deliverWake (w : W) (input : List UInt8)
  /-- Before the read of `busy_` of the next worker, or at the end of the list. -/
  | scan (passed rest : List W) (outputLen : ℕ)
  /-- Before the three tests and reads of `outbox_len_` in `CollectRsp`. -/
  | collectSize (passed : List W) (w : W) (rest : List W) (outputLen : ℕ)
  | collectEmpty (passed : List W) (w : W) (rest : List W) (outputLen : ℕ)
  | collectRead (passed : List W) (w : W) (rest : List W) (outputLen : ℕ)
  | collectCopy (passed : List W) (w : W) (rest : List W) (len : ℕ)
  | collectLen (passed : List W) (w : W) (rest : List W) (output : List UInt8)
  | collectClear (passed : List W) (w : W) (rest : List W) (output : List UInt8) (outputLen : ℕ)

structure Pool (W : Type) where
  worker : W → Worker
  freeThreads : List W
  busyThreads : List W
  main : MainPc W

/-- The lengths that callers and user code choose from. -/
structure Lengths where
  /-- The request lengths `CThreadPool::Process` is called with. -/
  input : ℕ → Prop
  /-- The lengths the user's `Process` yields. -/
  output : ℕ → Prop
  /-- The values of `output_len` that `HandleBusyThread` is called with. -/
  buffer : ℕ → Prop

/-! ### Steps -/

section Steps

variable (lengths : Lengths)

/-- One step of a worker. -/
inductive RunStep : Worker → Worker → Prop
  | stopped (worker : Worker) : worker.pc = .stopTest → worker.stop = true →
      RunStep worker { worker with pc := .done }
  | looped (worker : Worker) : worker.pc = .stopTest → worker.stop = false →
      RunStep worker { worker with pc := .inboxTest }
  | waits (worker : Worker) : worker.pc = .inboxTest → worker.inboxLen = 0 →
      RunStep worker { worker with pc := .atLock }
  | finds (worker : Worker) : worker.pc = .inboxTest → worker.inboxLen ≠ 0 →
      RunStep worker { worker with pc := .setBusy }
  | locks (worker : Worker) : worker.pc = .atLock → worker.taken = false →
      RunStep worker { worker with taken := true, pc := .inboxTest }
  | setBusy (worker : Worker) : worker.pc = .setBusy →
      RunStep worker { worker with busy := true, pc := .outboxTest }
  | outboxFull (worker : Worker) : worker.pc = .outboxTest → worker.outboxLen ≠ 0 →
      RunStep worker { worker with pc := .spinning }
  | outboxEmpty (worker : Worker) : worker.pc = .outboxTest → worker.outboxLen = 0 →
      RunStep worker { worker with pc := .readLen }
  | spins (worker : Worker) : worker.pc = .spinning →
      RunStep worker { worker with pc := .outboxTest }
  | enters (worker : Worker) : worker.pc = .readLen →
      RunStep worker { worker with pc := .entered worker.inboxLen }
  | reads (worker : Worker) (inputLen : ℕ) : worker.pc = .entered inputLen →
      RunStep worker { worker with
        pc := .processing (load worker.inbox (span 0) inputLen)
        log := { worker.log with
          runs := worker.log.runs ++ [load worker.inbox (span 0) inputLen] } }
  | yields (worker : Worker) (input output : List UInt8) : worker.pc = .processing input →
      lengths.output output.length →
      RunStep worker { worker with
        outbox := write worker.outbox (cells (span 0) output)
        pc := .publish output.length
        log := { worker.log with yields := worker.log.yields ++ [(input, output)] } }
  | publishes (worker : Worker) (curOutboxLen : ℕ) : worker.pc = .publish curOutboxLen →
      RunStep worker { worker with outboxLen := curOutboxLen, pc := .clearInbox }
  | clearsInbox (worker : Worker) : worker.pc = .clearInbox →
      RunStep worker { worker with inboxLen := 0, pc := .clearBusy }
  | clearsBusy (worker : Worker) : worker.pc = .clearBusy →
      RunStep worker { worker with busy := false, pc := .stopTest }

variable {W : Type} [DecidableEq W]

/-- The pool with one worker replaced. -/
def Pool.set (pool : Pool W) (w : W) (worker : Worker) : Pool W :=
  { pool with worker := Function.update pool.worker w worker }

theorem Pool.set_self (pool : Pool W) (w : W) (worker : Worker) :
    (pool.set w worker).worker w = worker := by
  rw [set]
  exact Function.update_self ..

theorem Pool.set_other (pool : Pool W) {w other : W} (worker : Worker) (apart : other ≠ w) :
    (pool.set w worker).worker other = pool.worker other := by
  rw [set]
  exact Function.update_of_ne apart ..

theorem Pool.set_set (pool : Pool W) (w : W) (first second : Worker) :
    (pool.set w first).set w second = pool.set w second := by
  rw [set, set, set, Function.update_idem]

/-- One step of the main thread. -/
inductive MainStep : Pool W → Pool W → Prop
  /-- `CThread::Stop`. -/
  | stop (pool : Pool W) (w : W) : pool.main = .idle →
      MainStep pool (pool.set w { pool.worker w with stop := true })
  | processNone (pool : Pool W) (input : List UInt8) : pool.main = .idle →
      lengths.input input.length → pool.freeThreads = [] → MainStep pool pool
  | process (pool : Pool W) (input : List UInt8) (w : W) (rest : List W) : pool.main = .idle →
      lengths.input input.length → pool.freeThreads = w :: rest →
      MainStep pool { pool with main := .deliverTest w input }
  /-- `DeliverWork` returns `kUnexpect` or `kSpaceLimit`. -/
  | deliverRefused (pool : Pool W) (w : W) (input : List UInt8) :
      pool.main = .deliverTest w input →
      (pool.worker w).inboxLen ≠ 0 ∨ kMaxInboxLen < input.length →
      MainStep pool { pool with main := .idle }
  | deliverPasses (pool : Pool W) (w : W) (input : List UInt8) :
      pool.main = .deliverTest w input → (pool.worker w).inboxLen = 0 →
      input.length ≤ kMaxInboxLen →
      MainStep pool { pool with main := .deliverCopy w input }
  | deliverCopy (pool : Pool W) (w : W) (input : List UInt8) :
      pool.main = .deliverCopy w input →
      MainStep pool { pool.set w { pool.worker w with
        inbox := write (pool.worker w).inbox (cells (span 0) input) } with
        main := .deliverLen w input }
  | deliverLen (pool : Pool W) (w : W) (input : List UInt8) :
      pool.main = .deliverLen w input →
      MainStep pool { pool.set w { pool.worker w with inboxLen := input.length } with
        main := .deliverWake w input }
  /-- The unlock; `Process` moves the worker to the other list and returns `kOk`. -/
  | deliverWake (pool : Pool W) (w : W) (input : List UInt8) :
      pool.main = .deliverWake w input →
      MainStep pool { pool.set w { pool.worker w with
          taken := false
          log := { (pool.worker w).log with
            accepted := (pool.worker w).log.accepted ++ [input] } } with
        freeThreads := pool.freeThreads.tail
        busyThreads := pool.busyThreads ++ [w]
        main := .idle }
  /-- `HandleBusyThread` is called; an empty list is at its end at once. -/
  | handle (pool : Pool W) (outputLen : ℕ) : pool.main = .idle → lengths.buffer outputLen →
      MainStep pool { pool with main := .scan [] pool.busyThreads outputLen }
  | scanEnd (pool : Pool W) (passed : List W) (outputLen : ℕ) :
      pool.main = .scan passed [] outputLen → MainStep pool { pool with main := .idle }
  | scanBusy (pool : Pool W) (passed : List W) (w : W) (rest : List W) (outputLen : ℕ) :
      pool.main = .scan passed (w :: rest) outputLen → (pool.worker w).busy = true →
      MainStep pool { pool with main := .scan (passed ++ [w]) rest outputLen }
  | scanFree (pool : Pool W) (passed : List W) (w : W) (rest : List W) (outputLen : ℕ) :
      pool.main = .scan passed (w :: rest) outputLen → (pool.worker w).busy = false →
      MainStep pool { pool with main := .collectSize passed w rest outputLen }
  /-- `CollectRsp` returns `kSpaceLimit`. -/
  | collectSmall (pool : Pool W) (passed : List W) (w : W) (rest : List W) (outputLen : ℕ) :
      pool.main = .collectSize passed w rest outputLen → outputLen < (pool.worker w).outboxLen →
      MainStep pool { pool with main := .scan (passed ++ [w]) rest outputLen }
  | collectFits (pool : Pool W) (passed : List W) (w : W) (rest : List W) (outputLen : ℕ) :
      pool.main = .collectSize passed w rest outputLen → ¬ outputLen < (pool.worker w).outboxLen →
      MainStep pool { pool with main := .collectEmpty passed w rest outputLen }
  /-- `CollectRsp` returns `kUnexpect`. -/
  | collectNone (pool : Pool W) (passed : List W) (w : W) (rest : List W) (outputLen : ℕ) :
      pool.main = .collectEmpty passed w rest outputLen → (pool.worker w).outboxLen = 0 →
      MainStep pool { pool with main := .scan (passed ++ [w]) rest outputLen }
  | collectSome (pool : Pool W) (passed : List W) (w : W) (rest : List W) (outputLen : ℕ) :
      pool.main = .collectEmpty passed w rest outputLen → (pool.worker w).outboxLen ≠ 0 →
      MainStep pool { pool with main := .collectRead passed w rest outputLen }
  | collectRead (pool : Pool W) (passed : List W) (w : W) (rest : List W) (outputLen : ℕ) :
      pool.main = .collectRead passed w rest outputLen →
      MainStep pool { pool with main := .collectCopy passed w rest (pool.worker w).outboxLen }
  | collectCopy (pool : Pool W) (passed : List W) (w : W) (rest : List W) (len : ℕ) :
      pool.main = .collectCopy passed w rest len →
      MainStep pool { pool with
        main := .collectLen passed w rest (load (pool.worker w).outbox (span 0) len) }
  | collectLen (pool : Pool W) (passed : List W) (w : W) (rest : List W) (output : List UInt8) :
      pool.main = .collectLen passed w rest output →
      MainStep pool { pool with
        main := .collectClear passed w rest output (pool.worker w).outboxLen }
  /-- The last write of `CollectRsp`; `HandleBusyThread` moves the worker to the other list and
  returns true. -/
  | collectClear (pool : Pool W) (passed : List W) (w : W) (rest : List W) (output : List UInt8)
      (outputLen : ℕ) :
      pool.main = .collectClear passed w rest output outputLen →
      MainStep pool { pool.set w { pool.worker w with
          outboxLen := 0
          log := { (pool.worker w).log with
            collected := (pool.worker w).log.collected ++ [(output, outputLen)] } } with
        freeThreads := pool.freeThreads ++ [w]
        busyThreads := passed ++ rest
        main := .idle }

/-- Who takes a step. -/
inductive Actor (W : Type)
  | main
  | worker (w : W)

/-- One step of the main thread or of a worker. -/
inductive PoolStep : Pool W → Actor W → Pool W → Prop
  | main (pool after : Pool W) : MainStep lengths pool after → PoolStep pool .main after
  | worker (pool : Pool W) (w : W) (after : Worker) : RunStep lengths (pool.worker w) after →
      PoolStep pool (.worker w) (pool.set w after)

end Steps

/-- A pool after `CThreadPool::Init(pool_size)`: every worker is free, in the order of creation. -/
def Pool.Started {size : ℕ} (pool : Pool (Fin size)) : Prop :=
  (∀ w, ∃ inbox outbox, pool.worker w = Worker.init inbox outbox) ∧
    pool.freeThreads = List.finRange size ∧ pool.busyThreads = [] ∧ pool.main = .idle

/-- A pool of `size` workers and its main thread. -/
def poolMachine (size : ℕ) (lengths : Lengths) : Machine (Pool (Fin size)) (Actor (Fin size)) where
  init := Pool.Started
  step := PoolStep lengths

end Yarf.Thread
