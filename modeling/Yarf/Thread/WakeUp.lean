/-
**No lost wake-up.**

One worker in `Run` and a main thread that calls its methods in any order. `DeliverWork` writes
`inbox_len_` before it unlocks `wake_signal_`; the worker reads `inbox_len_` before it locks, and
again after. So a worker at the lock with a request in its inbox has the unlock of that request still
before it, or finds the signal free (`Pair.Awake`), however many signals were given and taken for
earlier requests.

`no_lost_wakeup`: once `DeliverWork` has returned, the worker is not asleep on a request.
-/

import Yarf.Thread.ThreadPool

namespace Yarf.Thread

open Lib

/-! ### One worker and its caller -/

/-- Where the main thread stands in the methods of one worker. -/
inductive CallerPc
  | outside
  /-- Before the first test of `DeliverWork`. -/
  | deliverTest (input : List UInt8)
  | deliverCopy (input : List UInt8)
  | deliverLen (input : List UInt8)
  | deliverWake (input : List UInt8)
  /-- Before the three tests and reads of `outbox_len_` in `CollectRsp`. -/
  | collectSize (outputLen : ℕ)
  | collectEmpty (outputLen : ℕ)
  | collectRead (outputLen : ℕ)
  | collectCopy (len : ℕ)
  | collectLen (output : List UInt8)
  | collectClear (output : List UInt8) (outputLen : ℕ)

/-- The main thread is in `DeliverWork`. -/
def CallerPc.Delivering : CallerPc → Prop
  | .deliverTest _ | .deliverCopy _ | .deliverLen _ | .deliverWake _ => True
  | _ => False

structure Pair where
  worker : Worker
  caller : CallerPc

/-- One step of the main thread. A request has at least one byte. `IsBusy` is a read without
consequences. -/
inductive CallerStep : Pair → Pair → Prop
  /-- `CThread::Stop`. -/
  | stop (pair : Pair) : pair.caller = .outside →
      CallerStep pair { pair with worker := { pair.worker with stop := true } }
  | deliver (pair : Pair) (input : List UInt8) : pair.caller = .outside → input ≠ [] →
      CallerStep pair { pair with caller := .deliverTest input }
  /-- `DeliverWork` returns `kUnexpect` or `kSpaceLimit`. -/
  | deliverRefused (pair : Pair) (input : List UInt8) : pair.caller = .deliverTest input →
      pair.worker.inboxLen ≠ 0 ∨ kMaxInboxLen < input.length →
      CallerStep pair { pair with caller := .outside }
  | deliverPasses (pair : Pair) (input : List UInt8) : pair.caller = .deliverTest input →
      pair.worker.inboxLen = 0 → input.length ≤ kMaxInboxLen →
      CallerStep pair { pair with caller := .deliverCopy input }
  | deliverCopy (pair : Pair) (input : List UInt8) : pair.caller = .deliverCopy input →
      CallerStep pair ⟨{ pair.worker with
        inbox := write pair.worker.inbox (cells (span 0) input) }, .deliverLen input⟩
  | deliverLen (pair : Pair) (input : List UInt8) : pair.caller = .deliverLen input →
      CallerStep pair ⟨{ pair.worker with inboxLen := input.length }, .deliverWake input⟩
  /-- The unlock, and the return of `kOk`. -/
  | deliverWake (pair : Pair) (input : List UInt8) : pair.caller = .deliverWake input →
      CallerStep pair ⟨{ pair.worker with
        taken := false
        log := { pair.worker.log with accepted := pair.worker.log.accepted ++ [input] } }, .outside⟩
  | collect (pair : Pair) (outputLen : ℕ) : pair.caller = .outside →
      CallerStep pair { pair with caller := .collectSize outputLen }
  /-- `CollectRsp` returns `kSpaceLimit`. -/
  | collectSmall (pair : Pair) (outputLen : ℕ) : pair.caller = .collectSize outputLen →
      outputLen < pair.worker.outboxLen → CallerStep pair { pair with caller := .outside }
  | collectFits (pair : Pair) (outputLen : ℕ) : pair.caller = .collectSize outputLen →
      ¬ outputLen < pair.worker.outboxLen →
      CallerStep pair { pair with caller := .collectEmpty outputLen }
  /-- `CollectRsp` returns `kUnexpect`. -/
  | collectNone (pair : Pair) (outputLen : ℕ) : pair.caller = .collectEmpty outputLen →
      pair.worker.outboxLen = 0 → CallerStep pair { pair with caller := .outside }
  | collectSome (pair : Pair) (outputLen : ℕ) : pair.caller = .collectEmpty outputLen →
      pair.worker.outboxLen ≠ 0 → CallerStep pair { pair with caller := .collectRead outputLen }
  | collectRead (pair : Pair) (outputLen : ℕ) : pair.caller = .collectRead outputLen →
      CallerStep pair { pair with caller := .collectCopy pair.worker.outboxLen }
  | collectCopy (pair : Pair) (len : ℕ) : pair.caller = .collectCopy len →
      CallerStep pair { pair with
        caller := .collectLen (load pair.worker.outbox (span 0) len) }
  | collectLen (pair : Pair) (output : List UInt8) : pair.caller = .collectLen output →
      CallerStep pair { pair with caller := .collectClear output pair.worker.outboxLen }
  | collectClear (pair : Pair) (output : List UInt8) (outputLen : ℕ) :
      pair.caller = .collectClear output outputLen →
      CallerStep pair ⟨{ pair.worker with
        outboxLen := 0
        log := { pair.worker.log with
          collected := pair.worker.log.collected ++ [(output, outputLen)] } }, .outside⟩

/-- One step of the main thread or of the worker. -/
inductive PairStep (lengths : Lengths) : Pair → Actor Unit → Pair → Prop
  | main (pair after : Pair) : CallerStep pair after → PairStep lengths pair .main after
  | worker (pair : Pair) (after : Worker) : RunStep lengths pair.worker after →
      PairStep lengths pair (.worker ()) { pair with worker := after }

/-- A worker after `Init` and `Start`, and the main thread outside its methods. -/
def pairMachine (lengths : Lengths) : Machine Pair (Actor Unit) where
  init pair := (∃ inbox outbox, pair.worker = Worker.init inbox outbox) ∧ pair.caller = .outside
  step := PairStep lengths

/-! ### The signal -/

/-- The worker waits for a signal that nobody has given. -/
def Worker.Asleep (worker : Worker) : Prop := worker.pc = .atLock ∧ worker.taken = true

/-- A worker asleep takes no step. -/
theorem Worker.Asleep.stuck {lengths : Lengths} {worker after : Worker} (asleep : worker.Asleep) :
    ¬RunStep lengths worker after := by
  obtain ⟨here, locked⟩ := asleep
  intro taken
  cases taken with
  | locks _ free => cases locked.symm.trans free
  | stopped at_ | looped at_ | waits at_ | finds at_ | setBusy at_ | outboxFull at_ | outboxEmpty at_
  | spins at_ | enters at_ | reads _ at_ | yields _ _ at_ | publishes _ at_ | clearsInbox at_
  | clearsBusy at_ => cases here.symm.trans at_

/-- A worker asleep on a request has the unlock of `DeliverWork` still to come. -/
def Pair.Awake (pair : Pair) : Prop :=
  pair.worker.Asleep → pair.worker.inboxLen ≠ 0 → ∃ input, pair.caller = .deliverWake input

section Awake

variable {lengths : Lengths} {pair after : Pair}

/-- A step that touches neither the signal nor the inbox, and does not end `DeliverWork`. -/
theorem Pair.Awake.keep (awake : pair.Awake) (pc : after.worker.pc = pair.worker.pc)
    (taken : after.worker.taken = pair.worker.taken)
    (inboxLen : after.worker.inboxLen = pair.worker.inboxLen)
    (quiet : ∀ input, pair.caller ≠ .deliverWake input) : after.Awake := by
  intro asleep full
  obtain ⟨input, here⟩ := awake ⟨pc ▸ asleep.1, taken ▸ asleep.2⟩ (inboxLen ▸ full)
  exact absurd here (quiet input)

/-- **The main thread** writes `inbox_len_` before it unlocks. -/
theorem CallerStep.awake (awake : pair.Awake) (step : CallerStep pair after) : after.Awake := by
  cases step with
  | deliverLen input here => exact fun _ _ => ⟨input, rfl⟩
  | deliverWake input here => exact fun asleep => absurd asleep.2 Bool.false_ne_true
  | stop here | deliver _ here | deliverRefused _ here | deliverPasses _ here | deliverCopy _ here
  | collect _ here | collectSmall _ here | collectFits _ here | collectNone _ here
  | collectSome _ here | collectRead _ here | collectCopy _ here | collectLen _ here
  | collectClear _ _ here =>
    refine awake.keep rfl rfl rfl fun input wakes => ?_
    cases here.symm.trans wakes

/-- **The worker** goes to the lock on an empty inbox only. -/
theorem RunStep.awake {worker : Worker} (step : RunStep lengths pair.worker worker) :
    Pair.Awake { pair with worker := worker } := by
  intro asleep full
  obtain ⟨here, _⟩ := asleep
  cases step with
  | waits _ empty => exact absurd empty full
  | stopped | looped | finds | locks | setBusy | outboxFull | outboxEmpty | spins | enters | reads
  | yields | publishes | clearsInbox | clearsBusy => cases here

theorem pairMachine_awake (reached : (pairMachine lengths).Reachable pair) : pair.Awake := by
  have base : ∀ start, (pairMachine lengths).init start → start.Awake := by
    rintro start ⟨⟨inbox, outbox, fresh⟩, _⟩ ⟨here, _⟩
    rw [fresh] at here
    cases here
  refine reached.invariant base ?_
  intro last actor next _ awake taken
  cases taken with
  | main _ step => exact step.awake awake
  | worker worker step => exact step.awake

end Awake

/-- **No lost wake-up.** In every interleaving of a worker with a main thread that calls `DeliverWork`
with any requests, and its other methods, in any order: no state is reached in which the main thread
is outside `DeliverWork`, `inbox_len_` is not zero, and the worker is at the lock with `wake_signal_`
taken. -/
theorem no_lost_wakeup (lengths : Lengths) (pair : Pair)
    (reached : (pairMachine lengths).Reachable pair) :
    ¬(¬pair.caller.Delivering ∧ pair.worker.inboxLen ≠ 0 ∧ pair.worker.Asleep) := by
  rintro ⟨outside, full, asleep⟩
  obtain ⟨input, here⟩ := pairMachine_awake reached asleep full
  rw [here] at outside
  exact outside trivial

/-- Callers and user code choose any length. -/
def fullLengths : Lengths := ⟨fun _ => True, fun _ => True, fun _ => True⟩

/-- A request of one byte is delivered to a worker that waits at the lock: it finds the signal free. -/
theorem no_lost_wakeup_delivered :
    ∃ pair, (pairMachine fullLengths).Reachable pair ∧ pair.caller = .outside ∧
      pair.worker.inboxLen = 1 ∧ pair.worker.pc = .atLock ∧ ¬pair.worker.Asleep := by
  have start : (pairMachine fullLengths).Reachable ⟨Worker.init (fun _ => 0) fun _ => 0, .outside⟩ :=
    .start ⟨⟨_, _, rfl⟩, rfl⟩
  have looped := start.next (.worker _ _ (.looped _ rfl rfl))
  have waits := looped.next (.worker _ _ (.waits _ rfl rfl))
  have calls := waits.next (.main _ _ (.deliver _ [7] rfl (List.cons_ne_nil 7 [])))
  have passes := calls.next (.main _ _ (.deliverPasses _ [7] rfl rfl (by decide)))
  have copied := passes.next (.main _ _ (.deliverCopy _ [7] rfl))
  have written := copied.next (.main _ _ (.deliverLen _ [7] rfl))
  have unlocked := written.next (.main _ _ (.deliverWake _ [7] rfl))
  refine ⟨_, unlocked, rfl, rfl, rfl, fun asleep => ?_⟩
  exact no_lost_wakeup fullLengths _ unlocked ⟨id, Nat.one_ne_zero, asleep⟩

end Yarf.Thread
