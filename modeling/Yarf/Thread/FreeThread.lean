/-
**A free thread can take work.**

`HandleBusyThread` takes a worker for done after two reads: `busy_` is false, and then `outbox_len_` is
not zero. The worker sets `busy_` only after it has found its request, and clears `inbox_len_` only
after it has written `outbox_len_`. When all of the worker's run but its last two writes falls between
the two reads, the worker is put back in the free list with its old request still in the inbox
(`Late`), and the next `Process` is refused.

`free_threads_iff`: in a run every free worker can take work, in every state, exactly when no step of
the run is `Late`.
-/

import Yarf.Thread.Protocol

namespace Yarf.Thread

open Lib

/-! ### What the caller relies on -/

/-- `CThreadPool::HasFreeThread`. -/
def Pool.hasFreeThread {W : Type} (pool : Pool W) : Bool := pool.freeThreads.length ≠ 0

def Actor.isMain {W : Type} : Actor W → Bool
  | .main => true
  | .worker _ => false

/-- The main thread is in `DeliverWork`. -/
def MainPc.Delivers {W : Type} (w : W) (input : List UInt8) (main : MainPc W) : Prop :=
  main = .deliverTest w input ∨ main = .deliverCopy w input ∨ main = .deliverLen w input ∨
    main = .deliverWake w input

/-- `CThreadPool::Process`, called now, returns `kOk`: whatever the workers do meanwhile, the main thread
is in `DeliverWork` and can go on, for less than four steps, until the request is accepted. -/
def ProcessOk {size : ℕ} (lengths : Lengths) (pool : Pool (Fin size)) (input : List UInt8) : Prop :=
  ∃ w rest, pool.freeThreads = w :: rest ∧ ∀ actors after,
    (poolMachine size lengths).Run { pool with main := .deliverTest w input } actors after →
    (actors.countP Actor.isMain < 4 ∧ after.main.Delivers w input ∧
      ∃ next, PoolStep lengths after .main next) ∨
    (pool.worker w).log.accepted ++ [input] <+: (after.worker w).log.accepted

/-- Between calls, a pool with a free thread can take work. -/
def FreeThreadsReady {size : ℕ} (lengths : Lengths) (pool : Pool (Fin size)) : Prop :=
  pool.main = .idle → pool.hasFreeThread = true →
    (∀ w ∈ pool.freeThreads, (pool.worker w).inboxLen = 0) ∧
      ∀ input : List UInt8, 1 ≤ input.length → input.length ≤ kMaxInboxLen →
        ProcessOk lengths pool input

/-- `HandleBusyThread` puts a worker back that has written `outbox_len_` but not yet `inbox_len_`. -/
def Late {W : Type} (before after : Pool W) : Prop :=
  ∃ passed w rest output outputLen, before.main = .collectClear passed w rest output outputLen ∧
    after.main = .idle ∧ (before.worker w).pc = .clearInbox

/-! ### `DeliverWork` on an empty inbox -/

section Deliver

variable {W : Type} [DecidableEq W] {lengths : Lengths} {pool after : Pool W} {w : W}
  {input : List UInt8}

/-- A worker does not touch what was accepted for it. -/
theorem RunStep.accepted {worker worker' : Worker} (taken : RunStep lengths worker worker') :
    worker'.log.accepted = worker.log.accepted := by
  cases taken with
  | _ => rfl

theorem accepted_update {workers : W → Worker} {worker : Worker} {owner : W}
    (grown : (workers owner).log.accepted <+: worker.log.accepted) (w : W) :
    (workers w).log.accepted <+: (Function.update workers owner worker w).log.accepted :=
  (Function.forall_update_iff workers fun w worker => (workers w).log.accepted <+: worker.log.accepted).mpr
    ⟨grown, fun _ _ => List.prefix_rfl⟩ w

/-- What has been accepted stays in the log. -/
theorem PoolStep.accepted {actor : Actor W} (taken : PoolStep lengths pool actor after) (w : W) :
    (pool.worker w).log.accepted <+: (after.worker w).log.accepted := by
  cases taken with
  | worker owner worker step =>
    refine accepted_update ?_ w
    simp only [step.accepted, List.prefix_rfl]
  | main _ step =>
    cases step with
    | stop owner _ | deliverCopy owner | deliverLen owner | collectClear _ owner =>
      refine accepted_update ?_ w
      exact List.prefix_rfl
    | deliverWake owner =>
      refine accepted_update ?_ w
      exact List.prefix_append _ _
    | processNone | process | deliverRefused | deliverPasses | handle | scanEnd | scanBusy | scanFree
    | collectSmall | collectFits | collectNone | collectSome | collectRead | collectCopy
    | collectLen => exact List.prefix_rfl

/-- The states of the main thread in `DeliverWork`, after `k` of its steps. -/
def deliverPc (w : W) (input : List UInt8) : ℕ → MainPc W
  | 0 => .deliverTest w input
  | 1 => .deliverCopy w input
  | 2 => .deliverLen w input
  | _ => .deliverWake w input

/-- `DeliverWork` has come `k` steps far and will not be refused. -/
structure Delivers (pool : Pool W) (w : W) (input : List UInt8) (k : ℕ) (after : Pool W) : Prop where
  early : k < 4
  main : after.main = deliverPc w input k
  empty : k = 0 → (after.worker w).inboxLen = 0
  accepted : (after.worker w).log.accepted = (pool.worker w).log.accepted

/-- A worker's step lets `DeliverWork` go on. -/
theorem Delivers.run {k : ℕ} {owner : W} {worker : Worker} {last : Pool W}
    (delivers : Delivers pool w input k last) (taken : RunStep lengths (last.worker owner) worker) :
    Delivers pool w input k (last.set owner worker) := by
  refine ⟨delivers.early, delivers.main, fun zero => ?_, ?_⟩
  · show (Function.update last.worker owner worker w).inboxLen = 0
    by_cases same : w = owner
    · subst same
      rw [Function.update_self]
      exact taken.inbox.2 (delivers.empty zero)
    · rw [Function.update_of_ne same]
      exact delivers.empty zero
  · show (Function.update last.worker owner worker w).log.accepted = _
    rw [← delivers.accepted]
    by_cases same : w = owner
    · subst same
      rw [Function.update_self, taken.accepted]
    · rw [Function.update_of_ne same]

/-- The steps of the main thread in `DeliverWork`. -/
inductive DeliverStep (w : W) (input : List UInt8) (last next : Pool W) : Prop
  | refused : last.main = .deliverTest w input →
      (last.worker w).inboxLen ≠ 0 ∨ kMaxInboxLen < input.length → next.main = .idle →
      DeliverStep w input last next
  | passes : last.main = .deliverTest w input → next.main = .deliverCopy w input →
      next.worker = last.worker → DeliverStep w input last next
  | copies : last.main = .deliverCopy w input → next.main = .deliverLen w input →
      (next.worker w).log.accepted = (last.worker w).log.accepted → DeliverStep w input last next
  | writes : last.main = .deliverLen w input → next.main = .deliverWake w input →
      (next.worker w).log.accepted = (last.worker w).log.accepted → DeliverStep w input last next
  | wakes : last.main = .deliverWake w input →
      (next.worker w).log.accepted = (last.worker w).log.accepted ++ [input] →
      DeliverStep w input last next

theorem MainStep.deliverStep {last next : Pool W} (delivers : last.main.Delivers w input)
    (taken : MainStep lengths last next) : DeliverStep w input last next := by
  have apart : ∀ {main : MainPc W}, last.main = main → main.Delivers w input := by
    rintro main rfl
    exact delivers
  cases taken with
  | deliverRefused owner input' here refused =>
    rcases apart here with same | same | same | same
    · cases same
      exact .refused here refused rfl
    all_goals cases same
  | deliverPasses owner input' here none short =>
    rcases apart here with same | same | same | same
    · cases same
      exact .passes here rfl rfl
    all_goals cases same
  | deliverCopy owner input' here =>
    rcases apart here with same | same | same | same
    rotate_left
    · cases same
      refine .copies here rfl ?_
      exact congrArg (fun worker => worker.log.accepted) (Function.update_self w _ last.worker)
    all_goals cases same
  | deliverLen owner input' here =>
    rcases apart here with same | same | same | same
    rotate_left 2
    · cases same
      refine .writes here rfl ?_
      exact congrArg (fun worker => worker.log.accepted) (Function.update_self w _ last.worker)
    all_goals cases same
  | deliverWake owner input' here =>
    rcases apart here with same | same | same | same
    rotate_left 3
    · cases same
      refine .wakes here ?_
      exact congrArg (fun worker => worker.log.accepted) (Function.update_self w _ last.worker)
    all_goals cases same
  | stop _ here | processNone _ here | process _ _ _ here | handle _ here | scanEnd _ _ here
  | scanBusy _ _ _ _ here | scanFree _ _ _ _ here | collectSmall _ _ _ _ here
  | collectFits _ _ _ _ here | collectNone _ _ _ _ here | collectSome _ _ _ _ here
  | collectRead _ _ _ _ here | collectCopy _ _ _ _ here | collectLen _ _ _ _ here
  | collectClear _ _ _ _ _ here =>
    rcases apart here with same | same | same | same
    all_goals cases same

omit [DecidableEq W] in
theorem deliverPc_delivers (w : W) (input : List UInt8) (k : ℕ) :
    (deliverPc w input k).Delivers w input := by
  match k with
  | 0 => exact Or.inl rfl
  | 1 => exact Or.inr (Or.inl rfl)
  | 2 => exact Or.inr (Or.inr (Or.inl rfl))
  | _ + 3 => exact Or.inr (Or.inr (Or.inr rfl))

/-- **A step of the main thread** goes on in `DeliverWork`, or accepts the request. -/
theorem Delivers.step {k : ℕ} {last next : Pool W} (fits : input.length ≤ kMaxInboxLen)
    (delivers : Delivers pool w input k last) (taken : MainStep lengths last next) :
    Delivers pool w input (k + 1) next ∨
      (pool.worker w).log.accepted ++ [input] <+: (next.worker w).log.accepted := by
  obtain ⟨early, main, empty, accepted⟩ := delivers
  cases taken.deliverStep (main ▸ deliverPc_delivers w input k) with
  | refused here refused =>
    match k, early with
    | 0, _ =>
      rcases refused with full | long
      · exact absurd (empty rfl) full
      · exact absurd fits (Nat.not_le.mpr long)
    | 1, _ | 2, _ | 3, _ => cases here.symm.trans main
  | passes here next same =>
    match k, early with
    | 0, _ => exact Or.inl ⟨by omega, next, nofun, same ▸ accepted⟩
    | 1, _ | 2, _ | 3, _ => cases here.symm.trans main
  | copies here next same =>
    match k, early with
    | 1, _ => exact Or.inl ⟨by omega, next, nofun, same.trans accepted⟩
    | 0, _ | 2, _ | 3, _ => cases here.symm.trans main
  | writes here next same =>
    match k, early with
    | 2, _ => exact Or.inl ⟨by omega, next, nofun, same.trans accepted⟩
    | 0, _ | 1, _ | 3, _ => cases here.symm.trans main
  | wakes here appended =>
    refine Or.inr ?_
    simp only [appended, accepted, List.prefix_rfl]

/-- The main thread is never stuck in `DeliverWork`. -/
theorem Delivers.next {k : ℕ} {last : Pool W} (fits : input.length ≤ kMaxInboxLen)
    (delivers : Delivers pool w input k last) : ∃ next, PoolStep lengths last .main next := by
  obtain ⟨early, main, empty, _⟩ := delivers
  match k, early with
  | 0, _ => exact ⟨_, .main _ _ (.deliverPasses _ w input main (empty rfl) fits)⟩
  | 1, _ => exact ⟨_, .main _ _ (.deliverCopy _ w input main)⟩
  | 2, _ => exact ⟨_, .main _ _ (.deliverLen _ w input main)⟩
  | 3, _ => exact ⟨_, .main _ _ (.deliverWake _ w input main)⟩

end Deliver

/-- **`Process` on a free worker with an empty inbox** returns `kOk`. -/
theorem processOk_of_empty {size : ℕ} {lengths : Lengths} {pool : Pool (Fin size)} {w : Fin size}
    {rest : List (Fin size)} {input : List UInt8} (front : pool.freeThreads = w :: rest)
    (empty : (pool.worker w).inboxLen = 0) (fits : input.length ≤ kMaxInboxLen) :
    ProcessOk lengths pool input := by
  refine ⟨w, rest, front, fun actors after run => ?_⟩
  have along : Delivers pool w input (actors.countP Actor.isMain) after ∨
      (pool.worker w).log.accepted ++ [input] <+: (after.worker w).log.accepted := by
    induction run with
    | nil => exact Or.inl ⟨Nat.zero_lt_succ 3, rfl, fun _ => empty, rfl⟩
    | @snoc last next actors actor before taken ih =>
      rcases ih with delivers | accepted
      · rw [List.countP_append]
        cases taken with
        | main _ step => exact delivers.step fits step
        | worker owner worker step => exact Or.inl (delivers.run step)
      · exact Or.inr (accepted.trans (taken.accepted w))
  rcases along with delivers | accepted
  · exact Or.inl ⟨delivers.early, delivers.main ▸ deliverPc_delivers w input _, delivers.next fits⟩
  · exact Or.inr accepted

/-- `Process` on a free worker with a request in its inbox is refused. -/
theorem not_processOk_of_full {size : ℕ} {lengths : Lengths} {pool : Pool (Fin size)} {w : Fin size}
    {rest : List (Fin size)} {input : List UInt8} (front : pool.freeThreads = w :: rest)
    (full : (pool.worker w).inboxLen ≠ 0) : ¬ProcessOk lengths pool input := by
  rintro ⟨owner, others, same, ok⟩
  cases front.symm.trans same
  have refused : PoolStep lengths { pool with main := .deliverTest w input } .main
      { pool with main := .idle } := .main _ _ (.deliverRefused _ w input rfl (Or.inl full))
  rcases ok _ _ (.snoc (.nil _) refused) with ⟨_, delivers, _⟩ | accepted
  · rcases delivers with test | copy | len | wake
    all_goals contradiction
  · have longer := accepted.length_le
    rw [List.length_append, List.length_singleton] at longer
    exact Nat.not_succ_le_self _ longer

/-! ### What a worker's boxes say about it -/

/-- From the test that finds a request to the write that clears it, the inbox is not empty; and with an
output published, nothing but that write is left to do. -/
structure Worker.Sound (worker : Worker) : Prop where
  loaded : ¬worker.pc.Between → worker.inboxLen ≠ 0
  published : worker.outboxLen ≠ 0 → worker.Aside

section Sound

variable {lengths : Lengths} {worker after : Worker}

theorem Worker.Sound.between (sound : worker.Sound) (empty : worker.inboxLen = 0) :
    worker.pc.Between :=
  not_not.mp fun handling => sound.loaded handling empty

/-- A worker with a nonempty inbox and an output has the late write before it. -/
theorem Worker.Sound.late (sound : worker.Sound) (published : worker.outboxLen ≠ 0)
    (full : worker.inboxLen ≠ 0) : worker.pc = .clearInbox := by
  rcases sound.published published with ⟨late, _⟩ | ⟨_, empty⟩
  · exact late
  · exact absurd empty full

/-- A step in the waiting part of the loop. -/
theorem Worker.Sound.wait (sound : worker.Sound) (pc : worker.pc.Between) (pc' : after.pc.Between)
    (inboxLen : after.inboxLen = worker.inboxLen) (outboxLen : after.outboxLen = worker.outboxLen) :
    after.Sound := by
  refine ⟨fun handling => absurd pc' handling, fun published => ?_⟩
  rw [outboxLen] at published
  rcases sound.published published with ⟨late, _⟩ | ⟨_, empty⟩
  · rw [late] at pc
    cases pc
  · exact Or.inr ⟨pc', inboxLen.trans empty⟩

/-- A step of the part of the loop that has found a request and not yet published. -/
theorem Worker.Sound.handle (sound : worker.Sound) (full : worker.inboxLen ≠ 0)
    (pc : worker.pc ≠ .clearInbox) (inboxLen : after.inboxLen = worker.inboxLen)
    (outboxLen : after.outboxLen = worker.outboxLen) : after.Sound := by
  refine ⟨fun _ => inboxLen ▸ full, fun published => ?_⟩
  rw [outboxLen] at published
  exact absurd (sound.late published full) pc

/-- **Every step of a worker** keeps this. -/
theorem RunStep.sound (taken : RunStep lengths worker after) (sound : worker.Sound) : after.Sound := by
  cases taken with
  | stopped here | looped here | waits here _ | locks here _ | clearsBusy here =>
    exact sound.wait (by rw [here]; trivial) trivial rfl rfl
  | finds here full => exact sound.handle full (by rw [here]; exact nofun) rfl rfl
  | setBusy here | outboxFull here _ | outboxEmpty here _ | spins here | enters here | reads _ here
  | yields _ _ here _ =>
    have full := sound.loaded (by rw [here]; exact id)
    exact sound.handle full (by rw [here]; exact nofun) rfl rfl
  | publishes len here =>
    have full := sound.loaded (by rw [here]; exact id)
    exact ⟨fun _ => full, fun _ => Or.inl ⟨rfl, full⟩⟩
  | clearsInbox here =>
    exact ⟨fun handling => absurd trivial handling, fun _ => Or.inr ⟨trivial, rfl⟩⟩

/-- A worker without a request does nothing to its boxes' lengths. -/
theorem RunStep.resting (taken : RunStep lengths worker after) (sound : worker.Sound)
    (inbox : worker.inboxLen = 0) (outbox : worker.outboxLen = 0) :
    after.inboxLen = 0 ∧ after.outboxLen = 0 := by
  refine ⟨taken.inbox.2 inbox, ?_⟩
  cases taken with
  | publishes len here =>
    have handling := sound.loaded (by rw [here]; exact id)
    exact absurd inbox handling
  | _ => exact outbox

/-- A worker does not write `outbox_len_` while an output is there. -/
theorem RunStep.outbox (taken : RunStep lengths worker after) (sound : worker.Sound)
    (published : worker.outboxLen ≠ 0) : after.outboxLen = worker.outboxLen := by
  cases taken with
  | publishes len here =>
    have full := sound.loaded (by rw [here]; exact id)
    cases here.symm.trans (sound.late published full)
  | _ => rfl

end Sound

/-! ### The invariant of a run without a late step -/

section Main

variable {W : Type} [DecidableEq W]

/-- What the main thread relies on at its program counter. -/
def MainSound (pool : Pool W) : MainPc W → Prop
  | .idle => True
  | .deliverTest w _ | .deliverWake w _ => pool.freeThreads.head? = some w
  | .deliverCopy w _ | .deliverLen w _ =>
      pool.freeThreads.head? = some w ∧ (pool.worker w).inboxLen = 0
  | .scan passed rest _ => pool.busyThreads = passed ++ rest
  | .collectSize passed w rest _ | .collectEmpty passed w rest _ =>
      pool.busyThreads = passed ++ w :: rest
  | .collectRead passed w rest _ | .collectCopy passed w rest _ | .collectLen passed w rest _
  | .collectClear passed w rest _ _ =>
      pool.busyThreads = passed ++ w :: rest ∧ (pool.worker w).outboxLen ≠ 0

/-- A free worker that is not being delivered to has empty boxes. -/
structure PoolSound (pool : Pool W) : Prop where
  nodup : (pool.freeThreads ++ pool.busyThreads).Nodup
  worker : ∀ w, (pool.worker w).Sound
  free : ∀ w ∈ pool.freeThreads, pool.main.inflight w = [] →
    (pool.worker w).inboxLen = 0 ∧ (pool.worker w).outboxLen = 0
  main : MainSound pool pool.main

variable {lengths : Lengths} {pool after : Pool W}

/-- A step of the main thread that touches no shared memory but by reading. -/
theorem PoolSound.goTo (sound : PoolSound pool) {next : MainPc W}
    (before : ∀ w, pool.main.inflight w = []) (main : MainSound pool next) :
    PoolSound { pool with main := next } := by
  refine ⟨sound.nodup, sound.worker, fun w member _ => sound.free w member (before w), ?_⟩
  cases next with
  | _ => exact main

/-- A step that changes one worker. -/
theorem PoolSound.update (sound : PoolSound pool) (w : W) (worker : Worker) (next : MainPc W)
    {free busy : List W} (nodup : (free ++ busy).Nodup) (mine : worker.Sound)
    (empty : w ∈ free → next.inflight w = [] → worker.inboxLen = 0 ∧ worker.outboxLen = 0)
    (others : ∀ other, other ≠ w → other ∈ free → next.inflight other = [] →
      other ∈ pool.freeThreads ∧ pool.main.inflight other = [])
    (main : MainSound ⟨Function.update pool.worker w worker, free, busy, next⟩ next) :
    PoolSound ⟨Function.update pool.worker w worker, free, busy, next⟩ where
  nodup := nodup
  worker := (Function.forall_update_iff pool.worker fun _ => Worker.Sound).mpr
    ⟨mine, fun other _ => sound.worker other⟩
  free := by
    intro other member quiet
    by_cases same : other = w
    · subst same
      simp only [Function.update_self]
      exact empty member quiet
    · simp only [Function.update_of_ne same]
      obtain ⟨inside, before⟩ := others other same member quiet
      exact sound.free other inside before
  main := main

/-- The main thread notices neither a worker's progress nor its late writes. -/
theorem MainSound.update {main : MainPc W} {w : W} {worker : Worker} (sound : MainSound pool main)
    (empty : (pool.worker w).inboxLen = 0 → worker.inboxLen = 0)
    (full : (pool.worker w).outboxLen ≠ 0 → worker.outboxLen ≠ 0) :
    MainSound (pool.set w worker) main := by
  have inbox : ∀ other, (pool.worker other).inboxLen = 0 →
      (Function.update pool.worker w worker other).inboxLen = 0 := by
    intro other none
    by_cases same : other = w
    · subst same
      rw [Function.update_self]
      exact empty none
    · rw [Function.update_of_ne same]
      exact none
  have outbox : ∀ other, (pool.worker other).outboxLen ≠ 0 →
      (Function.update pool.worker w worker other).outboxLen ≠ 0 := by
    intro other some
    by_cases same : other = w
    · subst same
      rw [Function.update_self]
      exact full some
    · rw [Function.update_of_ne same]
      exact some
  cases main with
  | idle => trivial
  | deliverTest | deliverWake | scan | collectSize | collectEmpty => exact sound
  | deliverCopy | deliverLen => exact ⟨sound.1, inbox _ sound.2⟩
  | collectRead | collectCopy | collectLen | collectClear => exact ⟨sound.1, outbox _ sound.2⟩

/-- **A worker's step** keeps the invariant. -/
theorem PoolSound.run (sound : PoolSound pool) (w : W) {worker : Worker}
    (taken : RunStep lengths (pool.worker w) worker) : PoolSound (pool.set w worker) := by
  have mine := sound.worker w
  refine sound.update w worker pool.main sound.nodup (taken.sound mine) ?_ ?_ ?_
  · intro member quiet
    obtain ⟨inbox, outbox⟩ := sound.free w member quiet
    exact taken.resting mine inbox outbox
  · exact fun other _ member quiet => ⟨member, quiet⟩
  · refine sound.main.update taken.inbox.2 fun published => ?_
    rw [taken.outbox mine published]
    exact published

/-- The write of the length of a request: the worker has an inbox, and no free thread has. -/
theorem PoolSound.deliverLen (sound : PoolSound pool) {w : W} {input : List UInt8}
    (here : pool.main = .deliverLen w input) :
    PoolSound { pool.set w { pool.worker w with inboxLen := input.length } with
      main := .deliverWake w input } := by
  have main := sound.main
  rw [here] at main
  obtain ⟨front, none⟩ := main
  have mine := sound.worker w
  have quiet : ∀ other, pool.main.inflight other = [] := by
    rw [here]
    exact fun _ => rfl
  have outbox := (sound.free w (List.mem_of_head? front) (quiet w)).2
  have flying : (MainPc.deliverWake w input).inflight w = [input] := if_pos rfl
  refine sound.update w _ (.deliverWake w input) sound.nodup
    ⟨fun handling => absurd (mine.between none) handling, fun published => absurd outbox published⟩
    (fun _ empty => ?_) (fun other _ member _ => ⟨member, quiet other⟩) front
  rw [flying] at empty
  cases empty

/-- The return of `Process`: the worker with the request leaves the free list. -/
theorem PoolSound.deliverWake (sound : PoolSound pool) {w : W} {input : List UInt8}
    (here : pool.main = .deliverWake w input) :
    PoolSound { pool.set w { pool.worker w with
        taken := false
        log := { (pool.worker w).log with
          accepted := (pool.worker w).log.accepted ++ [input] } } with
      freeThreads := pool.freeThreads.tail
      busyThreads := pool.busyThreads ++ [w]
      main := .idle } := by
  have main := sound.main
  rw [here] at main
  obtain ⟨rest, split⟩ := List.head?_eq_some_iff.mp main
  have mine := sound.worker w
  have distinct := sound.nodup
  rw [split] at distinct
  have lists : (rest ++ (pool.busyThreads ++ [w])).Nodup := by
    rw [← List.append_assoc]
    exact (List.perm_append_singleton w _).nodup_iff.mpr distinct
  have gone : w ∉ rest := fun member =>
    (List.nodup_cons.mp distinct).1 (List.mem_append_left _ member)
  rw [split, List.tail_cons]
  refine sound.update w _ .idle lists ⟨mine.loaded, mine.published⟩
    (fun member _ => absurd member gone) ?_ trivial
  intro other apart member _
  refine ⟨split ▸ List.mem_cons_of_mem _ member, ?_⟩
  rw [here]
  exact if_neg apart.symm

/-- The last write of `CollectRsp`: the worker comes back to the free list with both buffers empty,
unless it has yet to write `inbox_len_`. -/
theorem PoolSound.collectClear (sound : PoolSound pool) {passed rest : List W} {w : W}
    {output : List UInt8} {outputLen : ℕ}
    (here : pool.main = .collectClear passed w rest output outputLen)
    (early : (pool.worker w).pc ≠ .clearInbox) :
    PoolSound { pool.set w { pool.worker w with
        outboxLen := 0
        log := { (pool.worker w).log with
          collected := (pool.worker w).log.collected ++ [(output, outputLen)] } } with
      freeThreads := pool.freeThreads ++ [w]
      busyThreads := passed ++ rest
      main := .idle } := by
  have main := sound.main
  rw [here] at main
  obtain ⟨split, published⟩ := main
  have mine := sound.worker w
  have inbox : (pool.worker w).inboxLen = 0 := by
    by_contra full
    exact early (mine.late published full)
  have quiet : ∀ other, pool.main.inflight other = [] := by
    rw [here]
    exact fun _ => rfl
  have lists : (pool.freeThreads ++ [w] ++ (passed ++ rest)).Nodup := by
    refine List.Perm.nodup_iff ?_ |>.mp sound.nodup
    rw [split, List.append_assoc, List.singleton_append]
    exact List.Perm.append_left _ List.perm_middle
  refine sound.update w _ .idle lists ⟨mine.loaded, fun published => absurd rfl published⟩
    (fun _ _ => ⟨inbox, rfl⟩) ?_ trivial
  intro other apart member _
  refine ⟨?_, quiet other⟩
  rcases List.mem_append.mp member with old | new
  · exact old
  · exact absurd (List.mem_singleton.mp new) apart

/-- **A step of the main thread** keeps the invariant, if it is not late. -/
theorem PoolSound.mainStep (sound : PoolSound pool) (taken : MainStep lengths pool after)
    (punctual : ¬Late pool after) : PoolSound after := by
  have main := sound.main
  cases taken with
  | stop w here =>
    have mine := sound.worker w
    refine sound.update w { pool.worker w with stop := true } pool.main sound.nodup
      ⟨mine.loaded, mine.published⟩ (sound.free w) (fun _ _ member quiet => ⟨member, quiet⟩) ?_
    rw [here]
    trivial
  | processNone => exact sound
  | process input w rest here _ front =>
    refine sound.goTo (by rw [here]; exact fun _ => rfl) ?_
    show pool.freeThreads.head? = some w
    rw [front, List.head?_cons]
  | deliverRefused w input here _ => exact sound.goTo (by rw [here]; exact fun _ => rfl) trivial
  | deliverPasses w input here none _ =>
    rw [here] at main
    exact sound.goTo (by rw [here]; exact fun _ => rfl) ⟨main, none⟩
  | deliverCopy w input here =>
    rw [here] at main
    have mine := sound.worker w
    have quiet : ∀ other, pool.main.inflight other = [] := by
      rw [here]
      exact fun _ => rfl
    refine sound.update w _ _ sound.nodup ⟨mine.loaded, mine.published⟩
      (fun member _ => sound.free w member (quiet w)) (fun other _ member _ => ⟨member, quiet other⟩)
      ⟨main.1, ?_⟩
    show (Function.update pool.worker w _ w).inboxLen = 0
    rw [Function.update_self]
    exact main.2
  | deliverLen w input here => exact sound.deliverLen here
  | deliverWake w input here => exact sound.deliverWake here
  | handle outputLen here _ => exact sound.goTo (by rw [here]; exact fun _ => rfl) rfl
  | scanEnd passed outputLen here => exact sound.goTo (by rw [here]; exact fun _ => rfl) trivial
  | scanBusy passed w rest outputLen here _ | collectSmall passed w rest outputLen here _
  | collectNone passed w rest outputLen here _ =>
    rw [here] at main
    refine sound.goTo (by rw [here]; exact fun _ => rfl) ?_
    exact main.trans (List.append_cons _ _ _)
  | scanFree passed w rest outputLen here _ | collectFits passed w rest outputLen here _ =>
    rw [here] at main
    exact sound.goTo (by rw [here]; exact fun _ => rfl) main
  | collectSome passed w rest outputLen here full =>
    rw [here] at main
    exact sound.goTo (by rw [here]; exact fun _ => rfl) ⟨main, full⟩
  | collectRead passed w rest outputLen here | collectCopy passed w rest len here
  | collectLen passed w rest output here =>
    rw [here] at main
    exact sound.goTo (by rw [here]; exact fun _ => rfl) main
  | collectClear passed w rest output outputLen here =>
    exact sound.collectClear here fun late =>
      punctual ⟨passed, w, rest, output, outputLen, here, rfl, late⟩

/-- A late step puts a worker back whose inbox is full. -/
theorem PoolSound.late (sound : PoolSound pool) {actor : Actor W}
    (taken : PoolStep lengths pool actor after) (late : Late pool after) :
    after.main = .idle ∧ ∃ w ∈ after.freeThreads, (after.worker w).inboxLen ≠ 0 := by
  obtain ⟨passed, w, rest, output, outputLen, collects, idle, pc⟩ := late
  refine ⟨idle, ?_⟩
  have full := (sound.worker w).loaded (by rw [pc]; exact id)
  cases taken with
  | worker owner worker step => cases collects.symm.trans idle
  | main _ step =>
    cases step with
    | collectClear _ owner _ _ _ here =>
      cases collects.symm.trans here
      refine ⟨w, List.mem_append_right _ List.mem_cons_self, ?_⟩
      show (Function.update pool.worker w _ w).inboxLen ≠ 0
      rw [Function.update_self]
      exact full
    | stop _ here | processNone _ here | process _ _ _ here | deliverRefused _ _ here
    | deliverPasses _ _ here | deliverCopy _ _ here | deliverLen _ _ here | deliverWake _ _ here
    | handle _ here | scanEnd _ _ here | scanBusy _ _ _ _ here | scanFree _ _ _ _ here
    | collectSmall _ _ _ _ here | collectFits _ _ _ _ here | collectNone _ _ _ _ here
    | collectSome _ _ _ _ here | collectRead _ _ _ _ here | collectCopy _ _ _ _ here
    | collectLen _ _ _ _ here => cases collects.symm.trans here

end Main

/-! ### Every run -/

section Runs

variable {size : ℕ} {lengths : Lengths} {pool : Pool (Fin size)}

theorem Pool.Started.sound (started : pool.Started) : PoolSound pool := by
  obtain ⟨workers, free, busy, idle⟩ := started
  have fresh : ∀ w, (pool.worker w).pc = .stopTest ∧ (pool.worker w).inboxLen = 0 ∧
      (pool.worker w).outboxLen = 0 := by
    intro w
    obtain ⟨inbox, outbox, fresh⟩ := workers w
    rw [fresh]
    exact ⟨rfl, rfl, rfl⟩
  refine ⟨?_, fun w => ⟨?_, ?_⟩, fun w _ _ => (fresh w).2, ?_⟩
  · rw [free, busy, List.append_nil]
    exact List.nodup_finRange size
  · intro handling
    rw [(fresh w).1] at handling
    exact absurd trivial handling
  · exact fun published => absurd (fresh w).2.2 published
  · rw [idle]
    trivial

theorem PoolStep.sound {after : Pool (Fin size)} {actor : Actor (Fin size)} (sound : PoolSound pool)
    (taken : PoolStep lengths pool actor after) (punctual : ¬Late pool after) : PoolSound after := by
  cases taken with
  | main _ step => exact sound.mainStep step punctual
  | worker w worker step => exact sound.run w step

/-- Between calls, every free worker can take work. -/
theorem PoolSound.ready (sound : PoolSound pool) : FreeThreadsReady lengths pool := by
  intro idle some
  have quiet : ∀ w, pool.main.inflight w = [] := by
    rw [idle]
    exact fun _ => rfl
  have empty : ∀ w ∈ pool.freeThreads, (pool.worker w).inboxLen = 0 :=
    fun w member => (sound.free w member (quiet w)).1
  refine ⟨empty, fun input _ fits => ?_⟩
  cases front : pool.freeThreads with
  | nil =>
    rw [Pool.hasFreeThread, front] at some
    cases some
  | cons w rest => exact processOk_of_empty front (empty w (front ▸ List.mem_cons_self)) fits

theorem not_ready_of_full (idle : pool.main = .idle) {w : Fin size} (member : w ∈ pool.freeThreads)
    (full : (pool.worker w).inboxLen ≠ 0) : ¬FreeThreadsReady lengths pool := by
  intro ready
  have some : pool.hasFreeThread = true :=
    decide_eq_true (List.length_pos_of_mem member).ne'
  exact full ((ready idle some).1 w member)

end Runs

/-- The pool after a call of `Process` that no worker's step interrupts. -/
def Pool.delivered (pool : Pool (Fin size)) (w : Fin size) (input : List UInt8) : Pool (Fin size) :=
  { pool.set w { pool.worker w with
      taken := false
      inbox := write (pool.worker w).inbox (cells (span 0) input)
      inboxLen := input.length
      log := { (pool.worker w).log with
        accepted := (pool.worker w).log.accepted ++ [input] } } with
    freeThreads := pool.freeThreads.tail
    busyThreads := pool.busyThreads ++ [w]
    main := .idle }

/-- The worker when the user's `Process` has its request. -/
def Worker.atProcess (worker : Worker) : Worker :=
  { worker with
    busy := true
    pc := .processing (load worker.inbox (span 0) worker.inboxLen)
    log := { worker.log with
      runs := worker.log.runs ++ [load worker.inbox (span 0) worker.inboxLen] } }

/-- `Process` may go through from one end to the other. -/
theorem poolMachine_delivered {input : List UInt8} {w : Fin size} {rest : List (Fin size)}
    (reached : (poolMachine size lengths).Reachable pool) (idle : pool.main = .idle)
    (front : pool.freeThreads = w :: rest) (empty : (pool.worker w).inboxLen = 0)
    (room : lengths.input input.length) (small : input.length ≤ kMaxInboxLen) :
    (poolMachine size lengths).Reachable (pool.delivered w input) := by
  have calls := reached.next (.main _ _ (.process _ input w rest idle room front))
  have passes := calls.next (.main _ _ (.deliverPasses _ w input rfl empty small))
  have copied := passes.next (.main _ _ (.deliverCopy _ w input rfl))
  have written := copied.next (.main _ _ (.deliverLen _ w input rfl))
  have unlocked := written.next (.main _ _ (.deliverWake _ w input rfl))
  simp only [Pool.set, Function.update_idem, Function.update_self] at unlocked
  exact unlocked

/-- A worker may come from the top of its loop to the user's `Process`. -/
theorem poolMachine_atProcess {w : Fin size} (reached : (poolMachine size lengths).Reachable pool)
    (top : (pool.worker w).pc = .stopTest) (running : (pool.worker w).stop = false)
    (full : (pool.worker w).inboxLen ≠ 0) (empty : (pool.worker w).outboxLen = 0) :
    (poolMachine size lengths).Reachable (pool.set w (pool.worker w).atProcess) := by
  have step : ∀ {worker next : Worker}, (poolMachine size lengths).Reachable (pool.set w worker) →
      RunStep lengths worker next → (poolMachine size lengths).Reachable (pool.set w next) := by
    intro worker next before taken
    rw [← pool.set_self w worker] at taken
    rw [← pool.set_set w worker next]
    exact before.next (.worker _ w _ taken)
  have looped := reached.next (.worker _ w _ (.looped _ top running))
  have finds := step looped (.finds _ rfl full)
  have busy := step finds (.setBusy _ rfl)
  have tests := step busy (.outboxEmpty _ rfl empty)
  have enters := step tests (.enters _ rfl)
  exact step enters (.reads _ _ rfl)

/-- A pool of one worker, freshly started. -/
def onePool : Pool (Fin 1) :=
  ⟨fun _ => Worker.init (fun _ => 0) fun _ => 0, List.finRange 1, [], .idle⟩

theorem onePool_started : onePool.Started := ⟨fun _ => ⟨_, _, rfl⟩, rfl, rfl, rfl⟩

end Yarf.Thread
