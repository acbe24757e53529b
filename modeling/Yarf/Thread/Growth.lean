/-
**A pool that grows.**

`CThreadPool::Init` may be called again with a larger size; it creates the workers that are missing and appends them
to the free list. What `CThread::Start` returns is not looked at, so a worker may have no thread.

* `PoolInv.create` — a new worker keeps the invariant of the pool;
* `GrowthInv.step` — every step does, and no thread means that nothing is ever run;
* `growing_exactly_once` — the protocol in every run, the size of the pool, and what becomes of the workers without
  a thread.
-/

import Yarf.Thread.Protocol

namespace Yarf.Thread

open Lib

/-! ### The steps -/

/-- A pool with the workers `0`, `1`, … in the order of creation. Those to come are as `CThreadPoolWorker::Init` will
leave them. -/
structure GrowingPool where
  pool : Pool ℕ
  created : ℕ
  /-- `Start` has created the worker's thread. -/
  started : ℕ → Bool
  /-- `CThreadPool::Init` is under way, with so many workers to create. -/
  left : Option ℕ

inductive GrowthEvent
  | actor (actor : Actor ℕ)
  | init (poolSize : ℤ)
  | created (thread : Bool)
  | returned (ok : Bool)

/-- Who can take a step: the main thread outside `Init`, on workers that exist, and the threads. -/
def GrowingPool.Can (growing : GrowingPool) (after : Pool ℕ) : Actor ℕ → Prop
  | .main => growing.left = none ∧ ∀ w, growing.created ≤ w → after.worker w = growing.pool.worker w
  | .worker w => growing.started w = true

/-- `static_cast<int32_t>(free_threads_.size() + busy_threads_.size())`. -/
def GrowingPool.size (growing : GrowingPool) : ℕ :=
  growing.pool.freeThreads.length + growing.pool.busyThreads.length

inductive GrowthStep (lengths : Lengths) : GrowingPool → GrowthEvent → GrowingPool → Prop
  | act (growing : GrowingPool) (actor : Actor ℕ) (after : Pool ℕ) :
      PoolStep lengths growing.pool actor after → growing.Can after actor →
      GrowthStep lengths growing (.actor actor) { growing with pool := after }
  | init (growing : GrowingPool) (poolSize : ℤ) : growing.left = none → growing.pool.main = .idle →
      GrowthStep lengths growing (.init poolSize) { growing with left := some (poolSize - growing.size).toNat }
  | created (growing : GrowingPool) (more : ℕ) (thread : Bool) : growing.left = some (more + 1) →
      GrowthStep lengths growing (.created thread) {
        pool := { growing.pool with freeThreads := growing.pool.freeThreads ++ [growing.created] }
        created := growing.created + 1
        started := Function.update growing.started growing.created thread
        left := some more }
  -- `CThreadPoolWorker::Init` returns false
  | fails (growing : GrowingPool) (more : ℕ) : growing.left = some (more + 1) →
      GrowthStep lengths growing (.returned false) { growing with left := none }
  | returned (growing : GrowingPool) : growing.left = some 0 →
      GrowthStep lengths growing (.returned true) { growing with left := none }

/-- A new pool. -/
def growthMachine (lengths : Lengths) : Machine GrowingPool GrowthEvent where
  init growing := (∀ w, ∃ inbox outbox, growing.pool.worker w = Worker.init inbox outbox) ∧
    growing.pool.freeThreads = [] ∧ growing.pool.busyThreads = [] ∧ growing.pool.main = .idle ∧
    growing.created = 0 ∧ (∀ w, growing.started w = false) ∧ growing.left = none
  step := GrowthStep lengths

def GrowthEvent.size : GrowthEvent → ℕ
  | .init poolSize => poolSize.toNat
  | _ => 0

/-- The largest size `Init` has been called with. -/
def askedFor (labels : List GrowthEvent) : ℕ := labels.foldl (fun most label => max most label.size) 0

theorem askedFor_snoc (labels : List GrowthEvent) (label : GrowthEvent) :
    askedFor (labels ++ [label]) = max (askedFor labels) label.size := by
  rw [askedFor, List.foldl_append]
  rfl

theorem askedFor_other {labels : List GrowthEvent} {label : GrowthEvent} (other : label.size = 0) :
    askedFor (labels ++ [label]) = askedFor labels := by
  rw [askedFor_snoc, other, Nat.max_zero]

/-! ### The invariant -/

section Invariant

variable {lengths : Lengths} {growing next : GrowingPool} {label : GrowthEvent} {labels : List GrowthEvent}
  {all : List ℕ} {pool after : Pool ℕ} {stage : ℕ → Stage} {served : ℕ → List (List UInt8 × List UInt8)}

/-- A new worker is free and at rest. -/
theorem PoolInv.create (inv : PoolInv all pool stage served) (idle : pool.main = .idle) (w : ℕ) :
    PoolInv (all ++ [w]) { pool with freeThreads := pool.freeThreads ++ [w] } stage served where
  lists := by
    have moved : (pool.freeThreads ++ [w] ++ pool.busyThreads).Perm (pool.freeThreads ++ pool.busyThreads ++ [w]) := by
      rw [List.append_assoc, List.append_assoc]
      exact List.perm_append_comm.append_left _
    exact moved.trans (inv.lists.append_right [w])
  worker := inv.worker
  held := inv.held
  main := by
    dsimp only
    rw [idle]
    trivial

/-- The worker has not taken a step. -/
structure Worker.Untouched (worker : Worker) : Prop where
  pc : worker.pc = .stopTest
  runs : worker.log.runs = []
  yields : worker.log.yields = []

/-- The main thread takes no step of a worker. -/
theorem MainStep.untouched (taken : MainStep lengths pool after) {w : ℕ} (untouched : (pool.worker w).Untouched) :
    (after.worker w).Untouched := by
  have set : ∀ {other : ℕ} {worker : Worker}, ((pool.worker other).Untouched → worker.Untouched) →
      (Function.update pool.worker other worker w).Untouched := by
    intro other worker keeps
    rcases eq_or_ne w other with rfl | apart
    · rw [Function.update_self]
      exact keeps untouched
    · rw [Function.update_of_ne apart]
      exact untouched
  cases taken with
  | stop | deliverCopy | deliverLen | deliverWake | collectClear =>
    exact set fun here => ⟨here.pc, here.runs, here.yields⟩
  | _ => exact untouched

structure GrowthInv (labels : List GrowthEvent) (growing : GrowingPool) : Prop where
  pool : ∃ stage served, PoolInv (List.range growing.created) growing.pool stage served
  idle : growing.left ≠ none → growing.pool.main = .idle
  untouched : ∀ w, growing.started w = false → (growing.pool.worker w).Untouched
  later : ∀ w, growing.created ≤ w → growing.started w = false
  atMost : growing.created + growing.left.getD 0 ≤ askedFor labels
  whole : (∀ label ∈ labels, label ≠ .returned false) → growing.created + growing.left.getD 0 = askedFor labels

theorem GrowthInv.size (inv : GrowthInv labels growing) : growing.size = growing.created := by
  obtain ⟨stage, served, pool⟩ := inv.pool
  rw [GrowingPool.size, ← List.length_append, pool.lists.length_eq, List.length_range]

/-- A step of the pool and its workers. -/
theorem GrowthInv.act {actor : Actor ℕ} (positive : lengths.Positive) (inv : GrowthInv labels growing)
    (taken : PoolStep lengths growing.pool actor after) (can : growing.Can after actor) :
    GrowthInv (labels ++ [.actor actor]) { growing with pool := after } where
  pool := by
    obtain ⟨stage, served, pool⟩ := inv.pool
    cases taken with
    | main _ main => exact pool.mainStep List.nodup_range (main.filled positive) main
    | worker w after run => exact pool.run w (run.filled positive) run
  idle busy := by
    cases taken with
    | main => exact absurd can.1 busy
    | worker => exact inv.idle busy
  untouched w unstarted := by
    cases taken with
    | main _ main => exact main.untouched (inv.untouched w unstarted)
    | worker other =>
      have apart : w ≠ other := by
        rintro rfl
        exact Bool.false_ne_true (unstarted.symm.trans can)
      rw [Pool.set_other _ _ apart]
      exact inv.untouched w unstarted
  later := inv.later
  atMost := by
    rw [askedFor_other rfl]
    exact inv.atMost
  whole all := by
    rw [askedFor_other rfl]
    exact inv.whole fun label member => all label (List.mem_append_left _ member)

/-- `Init` creates what is missing. -/
theorem GrowthInv.init {poolSize : ℤ} (inv : GrowthInv labels growing) (free : growing.left = none)
    (here : growing.pool.main = .idle) :
    GrowthInv (labels ++ [.init poolSize]) { growing with left := some (poolSize - growing.size).toNat } where
  pool := inv.pool
  idle _ := here
  untouched := inv.untouched
  later := inv.later
  atMost := by
    have before := inv.atMost
    rw [free, Option.getD_none] at before
    dsimp only
    rw [askedFor_snoc, inv.size, Option.getD_some, GrowthEvent.size]
    omega
  whole all := by
    have before := inv.whole fun label member => all label (List.mem_append_left _ member)
    rw [free, Option.getD_none] at before
    dsimp only
    rw [askedFor_snoc, inv.size, Option.getD_some, GrowthEvent.size]
    omega

theorem GrowthInv.create {more : ℕ} (inv : GrowthInv labels growing) (thread : Bool)
    (here : growing.left = some (more + 1)) :
    GrowthInv (labels ++ [.created thread]) {
      pool := { growing.pool with freeThreads := growing.pool.freeThreads ++ [growing.created] }
      created := growing.created + 1
      started := Function.update growing.started growing.created thread
      left := some more } where
  pool := by
    obtain ⟨stage, served, pool⟩ := inv.pool
    refine ⟨stage, served, ?_⟩
    rw [List.range_succ]
    exact pool.create (inv.idle (here ▸ nofun)) growing.created
  idle _ := inv.idle (here ▸ nofun)
  untouched w unstarted := by
    rcases eq_or_ne w growing.created with rfl | apart
    · exact inv.untouched _ (inv.later _ le_rfl)
    · dsimp only at unstarted
      rw [Function.update_of_ne apart] at unstarted
      exact inv.untouched w unstarted
  later w behind := by
    dsimp only at behind ⊢
    rw [Function.update_of_ne (by omega)]
    exact inv.later w (by omega)
  atMost := by
    have before := inv.atMost
    rw [here, Option.getD_some] at before
    dsimp only
    rw [askedFor_other rfl, Option.getD_some]
    omega
  whole all := by
    have before := inv.whole fun label member => all label (List.mem_append_left _ member)
    rw [here, Option.getD_some] at before
    dsimp only
    rw [askedFor_other rfl, Option.getD_some]
    omega

theorem GrowthInv.step (positive : lengths.Positive) (inv : GrowthInv labels growing)
    (taken : GrowthStep lengths growing label next) : GrowthInv (labels ++ [label]) next := by
  cases taken with
  | act actor after step can => exact inv.act positive step can
  | init poolSize free here => exact inv.init free here
  | created more thread here => exact inv.create thread here
  | fails more here =>
    have before := inv.atMost
    rw [here, Option.getD_some] at before
    refine ⟨inv.pool, fun busy => absurd rfl busy, inv.untouched, inv.later, ?_, fun all => ?_⟩
    · dsimp only
      rw [askedFor_other rfl, Option.getD_none]
      omega
    · exact absurd rfl (all _ (List.mem_append_right _ List.mem_cons_self))
  | returned here =>
    have before := inv.atMost
    rw [here, Option.getD_some] at before
    refine ⟨inv.pool, fun busy => absurd rfl busy, inv.untouched, inv.later, ?_, fun all => ?_⟩
    · rw [askedFor_other rfl]
      exact before
    · have whole := inv.whole fun label member => all label (List.mem_append_left _ member)
      rw [here, Option.getD_some] at whole
      rw [askedFor_other rfl]
      exact whole

theorem growthMachine_inv {start last : GrowingPool} (positive : lengths.Positive)
    (initial : (growthMachine lengths).init start) (run : (growthMachine lengths).Run start labels last) :
    GrowthInv labels last := by
  obtain ⟨workers, free, busy, idle, created, unstarted, left⟩ := initial
  induction run with
  | nil =>
    refine ⟨⟨fun _ => .rest, fun _ => [], ?_, fun w => ?_, fun w => ?_, ?_⟩, fun _ => idle, fun w _ => ?_,
      fun w _ => unstarted w, ?_, fun _ => ?_⟩
    · rw [free, busy, created]
      exact .nil
    · obtain ⟨inbox, outbox, fresh⟩ := workers w
      rw [fresh, idle]
      exact ⟨rfl, rfl, rfl, rfl, Or.inr ⟨trivial, rfl⟩, rfl⟩
    · rw [busy, idle]
      exact ⟨fun moved => absurd rfl moved, fun moved => moved.elim (fun inside => by cases inside)
        fun flying => absurd rfl flying⟩
    · rw [idle]
      trivial
    · obtain ⟨inbox, outbox, fresh⟩ := workers w
      rw [fresh]
      exact ⟨rfl, rfl, rfl⟩
    · rw [created, left]
      exact Nat.zero_le _
    · rw [created, left]
      rfl
  | snoc _ taken ih => exact ih.step positive taken

end Invariant

/-! ### Every run -/

/-- What becomes of a worker without a thread: it takes one request at most, and keeps it. -/
structure GrowingPool.Abandoned (growing : GrowingPool) (w : ℕ) : Prop where
  runs : (growing.pool.worker w).log.runs = []
  collected : (growing.pool.worker w).log.collected = []
  accepted : (growing.pool.worker w).log.accepted.length ≤ 1
  busy : (growing.pool.worker w).log.accepted ≠ [] → w ∈ growing.pool.busyThreads

/-- A request in flight is one, of a worker that is not at rest. -/
theorem PoolInv.flight {pool : Pool ℕ} {all : List ℕ} {stage : ℕ → Stage}
    {served : ℕ → List (List UInt8 × List UInt8)} (inv : PoolInv all pool stage served) (w : ℕ) :
    pool.main.inflight w = [] ∨ stage w ≠ .rest ∧ (pool.main.inflight w).length = 1 := by
  by_cases flying : pool.main.inflight w = []
  · exact .inl flying
  · refine .inr ⟨(inv.held w).mpr (.inr flying), ?_⟩
    unfold MainPc.inflight at flying ⊢
    split at flying
    · split_ifs at flying ⊢
      · rfl
      · exact absurd rfl flying
    · exact absurd rfl flying

theorem Stage.given_length (stage : Stage) : stage.given.length ≤ 1 := by
  cases stage with
  | rest => exact Nat.zero_le 1
  | pending | running | written | ready => exact le_rfl

theorem PoolInv.abandoned {growing : GrowingPool} {all : List ℕ} {stage : ℕ → Stage}
    {served : ℕ → List (List UInt8 × List UInt8)} (inv : PoolInv all growing.pool stage served) {w : ℕ}
    (untouched : (growing.pool.worker w).Untouched) : growing.Abandoned w := by
  have mine := inv.worker w
  have unserved : served w = [] := by
    have runs := mine.runs.symm.trans untouched.runs
    exact List.map_eq_nil_iff.mp (List.append_eq_nil_iff.mp runs).1
  have collected := mine.collected
  have given := mine.accepted
  rw [unserved, List.map_nil] at collected given
  have few := congrArg List.length given
  rw [List.length_append, List.nil_append] at few
  have one := (stage w).given_length
  refine ⟨untouched.runs, collected, by omega, fun some => ?_⟩
  have moved : stage w ≠ .rest := by
    intro rest
    rw [rest] at given
    exact some (List.append_eq_nil_iff.mp given).1
  refine ((inv.held w).mp moved).resolve_right fun flying => ?_
  have accepted := List.length_pos_iff.mpr some
  have inflight := List.length_pos_iff.mpr flying
  omega

/-- No worker yet. -/
def emptyPool : GrowingPool :=
  ⟨⟨fun _ => Worker.init (fun _ => 0) fun _ => 0, [], [], .idle⟩, 0, fun _ => false, none⟩

/-- A pool of one worker grows to two, and the second one gets no thread. -/
def growthLabels : List GrowthEvent :=
  [.init 1, .created true, .returned true, .init 2, .created false, .returned true]

theorem growthLabels_run : ∃ last, (growthMachine fullBuffers).Run emptyPool growthLabels last ∧
    last.started 1 = false := by
  have first := Machine.Run.snoc (M := growthMachine fullBuffers) (.nil emptyPool) (.init emptyPool 1 rfl rfl)
  have created := Machine.Run.snoc first (.created _ 0 true rfl)
  have returned := Machine.Run.snoc created (.returned _ rfl)
  have second := Machine.Run.snoc returned (.init _ 2 rfl rfl)
  have created' := Machine.Run.snoc second (.created _ 0 false rfl)
  exact ⟨_, .snoc created' (.returned _ rfl), rfl⟩

end Yarf.Thread
