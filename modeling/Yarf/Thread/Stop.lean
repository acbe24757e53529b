/-
**Stopping a worker.**

`CThread::Stop` sets a flag that `Run` tests at the top of its outer loop. The inner loop waits for a
request and tests another flag, so a worker that waits there when it is told to stop goes back to the
lock, and nobody gives the signal (`Pair.Stranded`).

* `Worker.Ending` — a worker told to stop elsewhere: `Run` returns after its request;
* `CallStep.heeds` — what every step keeps, if `Stop` is called on no waiting worker;
* `stranded_of_waiting`, `CallStep.stranded` — after a `Stop` on a waiting worker it gets stuck, and stays
  so until the next `DeliverWork`;
* `stop_ends_worker` puts them together.
-/

import Mathlib.Logic.Relation
import Yarf.Thread.WakeUp

namespace Yarf.Thread

open Lib

/-! ### Any deliveries -/

/-- One step of the main thread or of the worker, where a request may be empty. -/
inductive CallStep (lengths : Lengths) : Pair → Actor Unit → Pair → Prop
  | pair (pair after : Pair) (actor : Actor Unit) : PairStep lengths pair actor after →
      CallStep lengths pair actor after
  | deliverEmpty (pair : Pair) : pair.caller = .outside →
      CallStep lengths pair .main { pair with caller := .deliverTest [] }

/-- The step of `CThread::Stop`. -/
def Stops (before after : Pair) : Prop := before.worker.stop = false ∧ after.worker.stop = true

/-- A worker after `Init` and `Start` and its caller, where `Stop` is called on an allowed worker only. -/
def stopMachine (lengths : Lengths) (allowed : Worker → Prop) : Machine Pair (Actor Unit) where
  init pair := (∃ inbox outbox, pair.worker = Worker.init inbox outbox) ∧ pair.caller = .outside
  step before actor after := CallStep lengths before actor after ∧
    (Stops before after → allowed before.worker)

/-! ### What a worker told to stop is at -/

/-- In the loop that waits for a request. -/
def RunPc.Inner : RunPc → Prop
  | .inboxTest | .atLock => True
  | _ => False

/-- Between the top of the outer loop and the user's `Process`. -/
def RunPc.Ahead : RunPc → Prop
  | .inboxTest | .atLock | .setBusy | .outboxTest | .spinning => True
  | _ => False

/-- The worker waits for a request, and there is none. -/
def Worker.Waiting (worker : Worker) : Prop := worker.pc.Inner ∧ worker.inboxLen = 0

/-- The worker is before the user's `Process`, and its last output has not been collected. -/
def Worker.Backlogged (worker : Worker) : Prop := worker.pc.Ahead ∧ worker.outboxLen ≠ 0

/-- Between calls, the worker was told to stop and waits for a signal that nobody has given. -/
structure Pair.Stranded (pair : Pair) : Prop where
  stop : pair.worker.stop = true
  outside : pair.caller = .outside
  asleep : pair.worker.Asleep

/-- Alone, the worker leaves `Run`, whatever the user's `Process` yields. -/
inductive Worker.Returns (lengths : Lengths) : Worker → Prop
  | done (worker : Worker) : worker.pc = .done → Worker.Returns lengths worker
  | step (worker : Worker) : (∃ next, RunStep lengths worker next) →
      (∀ next, RunStep lengths worker next → Worker.Returns lengths next) → Worker.Returns lengths worker

section Ending

variable {lengths : Lengths} {worker next : Worker}

/-- Steps to the end of `Run` for a worker that is told to stop. -/
def RunPc.toEnd : RunPc → ℕ
  | .done => 0
  | .stopTest => 1
  | .clearBusy => 2
  | .clearInbox => 3
  | .publish _ => 4
  | .processing _ => 5
  | .entered _ => 6
  | .readLen => 7
  | .outboxTest => 8
  | .spinning | .setBusy => 9
  | .inboxTest => 10
  | .atLock => 11

/-- A worker that was told to stop and finds its way out. -/
structure Worker.Ending (worker : Worker) : Prop where
  stop : worker.stop = true
  request : worker.pc.Inner → worker.inboxLen ≠ 0
  room : worker.pc.Ahead → worker.outboxLen = 0
  awake : worker.pc = .atLock → worker.taken = false

theorem RunStep.ending (taken : RunStep lengths worker next) (ending : worker.Ending) :
    next.Ending ∧ next.pc.toEnd < worker.pc.toEnd := by
  obtain ⟨stop, request, room, _⟩ := ending
  cases taken with
  | looped _ running => cases stop.symm.trans running
  | waits here none =>
    rw [here] at request
    exact absurd none (request trivial)
  | outboxFull here full =>
    rw [here] at room
    exact absurd (room trivial) full
  | locks here =>
    rw [here] at request room ⊢
    exact ⟨⟨stop, request, room, nofun⟩, by simp [RunPc.toEnd]⟩
  | finds here | setBusy here | spins here =>
    rw [here] at room ⊢
    exact ⟨⟨stop, nofun, room, nofun⟩, by simp [RunPc.toEnd]⟩
  | stopped here | outboxEmpty here | enters here | reads _ here | yields _ _ here | publishes _ here
  | clearsInbox here | clearsBusy here =>
    rw [here]
    exact ⟨⟨stop, nofun, nofun, nofun⟩, by simp [RunPc.toEnd]⟩

/-- It is never blocked. -/
theorem Worker.Ending.moves (ending : worker.Ending) (inside : worker.pc ≠ .done) :
    ∃ next, RunStep fullLengths worker next := by
  obtain ⟨stop, request, room, awake⟩ := ending
  cases here : worker.pc with
  | done => exact absurd here inside
  | stopTest => exact ⟨_, .stopped worker here stop⟩
  | inboxTest =>
    rw [here] at request
    exact ⟨_, .finds worker here (request trivial)⟩
  | atLock => exact ⟨_, .locks worker here (awake here)⟩
  | setBusy => exact ⟨_, .setBusy worker here⟩
  | outboxTest =>
    rw [here] at room
    exact ⟨_, .outboxEmpty worker here (room trivial)⟩
  | spinning => exact ⟨_, .spins worker here⟩
  | readLen => exact ⟨_, .enters worker here⟩
  | entered len => exact ⟨_, .reads worker len here⟩
  | processing input => exact ⟨_, .yields worker input [] here trivial⟩
  | publish len => exact ⟨_, .publishes worker len here⟩
  | clearInbox => exact ⟨_, .clearsInbox worker here⟩
  | clearBusy => exact ⟨_, .clearsBusy worker here⟩

/-- **`Run` returns.** -/
theorem Worker.Ending.returns (ending : worker.Ending) : worker.Returns fullLengths := by
  -- by induction on the steps that are left
  induction left : worker.pc.toEnd using Nat.strong_induction_on generalizing worker with
  | _ left ih =>
    by_cases inside : worker.pc = .done
    · exact .done worker inside
    · refine .step worker (ending.moves inside) fun next taken => ?_
      obtain ⟨later, nearer⟩ := taken.ending ending
      exact ih _ (left ▸ nearer) later rfl

end Ending

/-! ### What every step keeps -/

section Steps

variable {lengths : Lengths} {pair after : Pair} {actor : Actor Unit}

/-- The parts of a worker that matter to one that is told to stop, left alone by a step of the main thread
that is neither `Stop` nor a write of a length. -/
structure Pair.Still (pair after : Pair) : Prop where
  stop : after.worker.stop = pair.worker.stop
  pc : after.worker.pc = pair.worker.pc
  inboxLen : after.worker.inboxLen = pair.worker.inboxLen
  outboxLen : after.worker.outboxLen = pair.worker.outboxLen

/-- Past the first test of `DeliverWork`. -/
def CallerPc.Filling : CallerPc → Prop
  | .deliverCopy _ | .deliverLen _ => True
  | _ => False

/-- A worker that is told to stop has a request where it waits for one; and while a request is put into
its box it is not in that loop. -/
structure Pair.Heeds (pair : Pair) : Prop where
  request : pair.worker.stop = true → ¬pair.worker.Waiting
  filling : pair.worker.stop = true → pair.caller.Filling → ¬pair.worker.pc.Inner

/-- A worker that is told to stop has room for its next output. -/
def Pair.Roomy (pair : Pair) : Prop := pair.worker.stop = true → ¬pair.worker.Backlogged

theorem Pair.Still.waiting (still : pair.Still after) : after.worker.Waiting ↔ pair.worker.Waiting := by
  rw [Worker.Waiting, Worker.Waiting, still.pc, still.inboxLen]

theorem Pair.Heeds.keep (heeds : pair.Heeds) (still : pair.Still after)
    (filling : after.caller.Filling → pair.caller.Filling ∨ pair.worker.inboxLen = 0) : after.Heeds := by
  refine ⟨fun told => ?_, fun told inside => ?_⟩
  · rw [still.waiting]
    exact heeds.request (still.stop ▸ told)
  · have told' := still.stop ▸ told
    rw [still.pc]
    rcases filling inside with before | empty
    · exact heeds.filling told' before
    · exact fun inner => heeds.request told' ⟨inner, empty⟩

theorem CallerStep.heeds (taken : CallerStep pair after) (heeds : pair.Heeds)
    (allowed : Stops pair after → ¬pair.worker.Waiting) : after.Heeds := by
  cases taken with
  | stop here =>
    refine ⟨fun _ waiting => ?_, fun _ inside => ?_⟩
    · cases told : pair.worker.stop with
      | true => exact heeds.request told waiting
      | false => exact allowed ⟨told, rfl⟩ waiting
    · rw [here] at inside
      cases inside
  | deliverPasses _ _ empty => exact heeds.keep ⟨rfl, rfl, rfl, rfl⟩ fun _ => Or.inr empty
  | deliverCopy _ here =>
    exact heeds.keep ⟨rfl, rfl, rfl, rfl⟩ fun _ => Or.inl (by rw [here]; trivial)
  | deliverLen _ here =>
    -- the worker is outside the loop, whatever the length
    exact ⟨fun told waiting => heeds.filling told (by rw [here]; trivial) waiting.1, fun _ => nofun⟩
  | collectClear =>
    exact ⟨fun told waiting => heeds.request told waiting, fun _ => nofun⟩
  | deliver | deliverRefused | deliverWake | collect | collectSmall | collectFits | collectNone
  | collectSome | collectRead | collectCopy | collectLen =>
    exact heeds.keep ⟨rfl, rfl, rfl, rfl⟩ nofun

theorem RunStep.heeds {worker : Worker} (taken : RunStep lengths pair.worker worker)
    (heeds : pair.Heeds) : Pair.Heeds { pair with worker := worker } := by
  obtain ⟨request, filling⟩ := heeds
  cases taken with
  | looped _ running =>
    have told : pair.worker.stop ≠ true := by simp [running]
    exact ⟨fun wrong => absurd wrong told, fun wrong => absurd wrong told⟩
  | waits here none =>
    rw [Worker.Waiting, here] at request
    rw [here] at filling
    exact ⟨fun told _ => request told ⟨trivial, none⟩, fun told inside _ => filling told inside trivial⟩
  | locks here =>
    rw [Worker.Waiting, here] at request
    rw [here] at filling
    exact ⟨fun told waiting => request told ⟨trivial, waiting.2⟩,
      fun told inside _ => filling told inside trivial⟩
  | stopped | finds | setBusy | outboxFull | outboxEmpty | spins | enters | reads | yields | publishes
  | clearsInbox | clearsBusy => exact ⟨fun _ waiting => waiting.1, fun _ _ => id⟩

/-- **If `Stop` finds no worker waiting**, none that was told to stop waits. -/
theorem CallStep.heeds (taken : CallStep lengths pair actor after) (heeds : pair.Heeds)
    (allowed : Stops pair after → ¬pair.worker.Waiting) : after.Heeds := by
  cases taken with
  | deliverEmpty here => exact heeds.keep ⟨rfl, rfl, rfl, rfl⟩ nofun
  | pair _ _ step =>
    cases step with
    | main _ step => exact step.heeds heeds allowed
    | worker worker step => exact step.heeds heeds

theorem CallStep.awake (taken : CallStep lengths pair actor after) (awake : pair.Awake) : after.Awake := by
  cases taken with
  | deliverEmpty here =>
    refine awake.keep rfl rfl rfl fun input wakes => ?_
    cases here.symm.trans wakes
  | pair _ _ step =>
    cases step with
    | main _ step => exact step.awake awake
    | worker worker step => exact step.awake

theorem CallerStep.roomy (taken : CallerStep pair after) (roomy : pair.Roomy)
    (allowed : Stops pair after → ¬pair.worker.Backlogged) : after.Roomy := by
  intro told backlogged
  cases taken with
  | stop =>
    cases before : pair.worker.stop with
    | true => exact roomy before backlogged
    | false => exact allowed ⟨before, rfl⟩ backlogged
  | collectClear => exact backlogged.2 rfl
  | deliver | deliverRefused | deliverPasses | deliverCopy | deliverLen | deliverWake | collect
  | collectSmall | collectFits | collectNone | collectSome | collectRead | collectCopy | collectLen =>
    exact roomy told backlogged

theorem RunStep.roomy {worker : Worker} (taken : RunStep lengths pair.worker worker)
    (roomy : pair.Roomy) : Pair.Roomy { pair with worker := worker } := by
  intro told backlogged
  unfold Pair.Roomy Worker.Backlogged at roomy
  cases taken with
  | looped _ running => cases running.symm.trans told
  | waits here | finds here | locks here | setBusy here | outboxFull here | spins here =>
    rw [here] at roomy
    exact roomy told ⟨trivial, backlogged.2⟩
  | stopped | outboxEmpty | enters | reads | yields | publishes | clearsInbox | clearsBusy =>
    exact backlogged.1

theorem CallStep.roomy (taken : CallStep lengths pair actor after) (roomy : pair.Roomy)
    (allowed : Stops pair after → ¬pair.worker.Backlogged) : after.Roomy := by
  cases taken with
  | deliverEmpty => exact roomy
  | pair _ _ step =>
    cases step with
    | main _ step => exact step.roomy roomy allowed
    | worker worker step => exact step.roomy roomy

/-- A worker at the lock that was told to stop stays there until the next unlock. -/
theorem CallStep.asleep (taken : CallStep lengths pair actor after)
    (quiet : ∀ input, pair.caller ≠ .deliverWake input)
    (stuck : pair.worker.stop = true ∧ pair.worker.Asleep) :
    after.worker.stop = true ∧ after.worker.Asleep := by
  cases taken with
  | deliverEmpty => exact stuck
  | pair _ _ step =>
    cases step with
    | worker worker step => exact absurd step stuck.2.stuck
    | main _ step =>
      cases step with
      | stop => exact ⟨rfl, stuck.2⟩
      | deliverWake input here => exact absurd here (quiet input)
      | deliver | deliverRefused | deliverPasses | deliverCopy | deliverLen | collect | collectSmall
      | collectFits | collectNone | collectSome | collectRead | collectCopy | collectLen
      | collectClear => exact stuck

end Steps

/-! ### Every run -/

section Runs

variable {lengths : Lengths} {allowed : Worker → Prop} {pair after : Pair}

theorem stopMachine_heeds (waits : ∀ worker, allowed worker → ¬worker.Waiting)
    (reached : (stopMachine lengths allowed).Reachable pair) : pair.Heeds ∧ pair.Awake := by
  have base : ∀ start, (stopMachine lengths allowed).init start → start.Heeds ∧ start.Awake := by
    rintro start ⟨⟨inbox, outbox, fresh⟩, outside⟩
    refine ⟨⟨fun _ waiting => ?_, fun _ inside => ?_⟩, fun asleep => ?_⟩
    · rw [fresh] at waiting
      exact waiting.1
    · rw [outside] at inside
      cases inside
    · rw [fresh] at asleep
      cases asleep.1
  refine reached.invariant base ?_
  rintro last actor next _ ⟨heeds, awake⟩ ⟨taken, guarded⟩
  exact ⟨taken.heeds heeds fun stops => waits _ (guarded stops), taken.awake awake⟩

theorem stopMachine_roomy (collects : ∀ worker, allowed worker → ¬worker.Backlogged)
    (reached : (stopMachine lengths allowed).Reachable pair) : pair.Roomy := by
  have base : ∀ start, (stopMachine lengths allowed).init start → start.Roomy := by
    rintro start ⟨⟨inbox, outbox, fresh⟩, _⟩ _ backlogged
    rw [fresh] at backlogged
    exact backlogged.1
  refine reached.invariant base ?_
  rintro last actor next _ roomy ⟨taken, guarded⟩
  exact taken.roomy roomy fun stops => collects _ (guarded stops)

/-- A worker told to stop where it waits for nothing is on its way out. -/
theorem Pair.Heeds.ending (heeds : pair.Heeds) (awake : pair.Awake) (roomy : pair.Roomy)
    (told : pair.worker.stop = true) (outside : pair.caller = .outside) : pair.worker.Ending := by
  have request : pair.worker.pc.Inner → pair.worker.inboxLen ≠ 0 :=
    fun inner empty => heeds.request told ⟨inner, empty⟩
  refine ⟨told, request, fun ahead => ?_, fun here => ?_⟩
  · by_contra full
    exact roomy told ⟨ahead, full⟩
  · by_contra locked
    rw [Bool.not_eq_false] at locked
    obtain ⟨input, wakes⟩ := awake ⟨here, locked⟩ (request (by rw [here]; trivial))
    cases outside.symm.trans wakes

/-- A worker at the lock without a request takes the signal, if there is one, for nothing. -/
theorem Worker.sleeps {worker : Worker} (here : worker.pc = .atLock) (empty : worker.inboxLen = 0) :
    ∃ last, Relation.ReflTransGen (RunStep lengths) worker last ∧ last.Asleep ∧
      last.stop = worker.stop := by
  cases signal : worker.taken with
  | true => exact ⟨worker, .refl, ⟨here, signal⟩, rfl⟩
  | false =>
    have locks : RunStep lengths worker { worker with taken := true, pc := .inboxTest } :=
      .locks worker here signal
    exact ⟨_, .tail (.single locks) (.waits _ rfl empty), ⟨rfl, rfl⟩, rfl⟩

/-- **A worker that waits when it is told to stop** goes back to the lock. -/
theorem stranded_of_waiting (told : pair.worker.stop = true) (outside : pair.caller = .outside)
    (waiting : pair.worker.Waiting) :
    ∃ last, Relation.ReflTransGen (RunStep lengths) pair.worker last ∧
      Pair.Stranded { pair with worker := last } := by
  obtain ⟨inner, empty⟩ := waiting
  cases here : pair.worker.pc with
  | atLock =>
    obtain ⟨last, run, asleep, stop⟩ := Worker.sleeps here empty
    exact ⟨last, run, stop.trans told, outside, asleep⟩
  | inboxTest =>
    have waits : RunStep lengths pair.worker { pair.worker with pc := .atLock } := .waits _ here empty
    obtain ⟨last, run, asleep, stop⟩ := @Worker.sleeps lengths { pair.worker with pc := .atLock } rfl empty
    exact ⟨last, .head waits run, stop.trans told, outside, asleep⟩
  | stopTest | setBusy | outboxTest | spinning | readLen | entered | processing | publish | clearInbox
  | clearBusy | done =>
    rw [here] at inner
    cases inner

/-- `Stop` is called between other calls. -/
theorem CallStep.outside_of_stops {actor : Actor Unit} (taken : CallStep lengths pair actor after)
    (stops : Stops pair after) : after.caller = .outside ∧ after.worker.pc = pair.worker.pc ∧
      after.worker.inboxLen = pair.worker.inboxLen := by
  obtain ⟨before, told⟩ := stops
  cases taken with
  | deliverEmpty => cases before.symm.trans told
  | pair _ _ step =>
    cases step with
    | worker worker step =>
      cases step with
      | _ => cases before.symm.trans told
    | main _ step =>
      cases step with
      | stop here => exact ⟨here, rfl, rfl⟩
      | _ => cases before.symm.trans told

end Runs

/-- Between two unlocks of the signal. -/
def Unsignalled (before _after : Pair) : Prop := ∀ input, before.caller ≠ .deliverWake input

/-- **Stopping a worker.** For all deliveries, empty ones too, all collections and every interleaving:

* in a run in which `Stop` is called on no worker that waits in the inner loop for a request, no state is
  reached in which the worker was told to stop, the main thread is between calls and the worker is blocked
  at the lock;
* if it is called on no worker either that is before the user's `Process` with an output that has not been
  collected, then from every state in which the worker was told to stop and the main thread is between calls
  the worker's own steps end with the return of `Run`, so `Wait` returns;
* in any run, after a `Stop` on a worker that waits, its own steps lead to such a blocked state, and it
  stays blocked until the next unlock in `DeliverWork`. -/
theorem stop_ends_worker (lengths : Lengths) (pair : Pair) :
    ((stopMachine lengths fun worker => ¬worker.Waiting).Reachable pair → ¬pair.Stranded) ∧
    ((stopMachine fullLengths fun worker => ¬worker.Waiting ∧ ¬worker.Backlogged).Reachable pair →
      pair.worker.stop = true → pair.caller = .outside → pair.worker.Returns fullLengths) ∧
    ∀ actor after, (stopMachine lengths fun _ => True).Reachable pair →
      CallStep lengths pair actor after → Stops pair after → pair.worker.Waiting →
      ∃ last, Relation.ReflTransGen (RunStep lengths) after.worker last ∧
        Pair.Stranded { after with worker := last } ∧
        ∀ later, ((stopMachine lengths fun _ => True).restrict Unsignalled).Leads
          { after with worker := last } later → later.worker.stop = true ∧ later.worker.Asleep := by
  refine ⟨fun reached stranded => ?_, fun reached told outside => ?_,
    fun actor after _ taken stops waiting => ?_⟩
  · obtain ⟨heeds, awake⟩ := stopMachine_heeds (fun _ => id) reached
    obtain ⟨told, outside, asleep⟩ := stranded
    have full : pair.worker.inboxLen ≠ 0 :=
      fun empty => heeds.request told ⟨by rw [asleep.1]; trivial, empty⟩
    obtain ⟨input, wakes⟩ := awake asleep full
    cases outside.symm.trans wakes
  · obtain ⟨heeds, awake⟩ := stopMachine_heeds (fun _ => And.left) reached
    exact (heeds.ending awake (stopMachine_roomy (fun _ => And.right) reached) told outside).returns
  · obtain ⟨outside, pc, inboxLen⟩ := taken.outside_of_stops stops
    have waits : after.worker.Waiting := by
      rw [Worker.Waiting, pc, inboxLen]
      exact waiting
    obtain ⟨last, run, stranded⟩ := @stranded_of_waiting lengths after stops.2 outside waits
    refine ⟨last, run, stranded, fun later leads => ?_⟩
    have keep : ∀ last (label : Actor Unit) next, last.worker.stop = true ∧ last.worker.Asleep →
        ((stopMachine lengths fun _ => True).restrict Unsignalled).step last label next →
        next.worker.stop = true ∧ next.worker.Asleep :=
      fun last label next stuck taken => taken.1.1.asleep taken.2 stuck
    exact leads.invariant keep ⟨stranded.stop, stranded.asleep⟩

/-- A worker that has gone to the lock for its first request is told to stop. -/
theorem stop_fails_idle :
    ∃ pair, (stopMachine fullLengths fun _ => True).Reachable pair ∧ pair.Stranded := by
  have start : (stopMachine fullLengths fun _ => True).Reachable
      ⟨Worker.init (fun _ => 0) fun _ => 0, .outside⟩ := .start ⟨⟨_, _, rfl⟩, rfl⟩
  have looped := start.next ⟨.pair _ _ _ (.worker _ _ (.looped _ rfl rfl)), fun _ => trivial⟩
  have waits := looped.next ⟨.pair _ _ _ (.worker _ _ (.waits _ rfl rfl)), fun _ => trivial⟩
  have told := waits.next ⟨.pair _ _ _ (.main _ _ (.stop _ rfl)), fun _ => trivial⟩
  exact ⟨_, told, rfl, rfl, rfl, rfl⟩

end Yarf.Thread
