/-
**What `CollectRsp` hands out.**

`CollectRsp` reads `outbox_len_` four times: for the size check, for the emptiness check, for the copy
and for the length it reports. A worker writes `outbox_len_` only after it has seen it zero
(`Worker.Guarded`), so from the emptiness check on the four reads agree, and the copy is the whole output
of the worker's last run. The size check comes before: an output published between the two checks has
not been compared with `output_len` (`Overtakes`).

`collect_respects_buffer`: in a run without such a publication every response fits the caller's buffer;
after one, the next two steps of the main thread copy more than the buffer holds.
-/

import Yarf.Thread.WakeUp
import Yarf.Thread.FreeThread

namespace Yarf.Thread

open Lib

/-! ### The outbox between two collections -/

/-- From the test that finds the outbox empty to the write of its length. -/
def RunPc.Filling : RunPc → Prop
  | .readLen | .entered _ | .processing _ | .publish _ => True
  | _ => False

/-- The last run of the worker wrote this output. -/
def Worker.Wrote (worker : Worker) (output : List UInt8) : Prop :=
  ∃ input, worker.log.yields.getLast? = some (input, output)

/-- The outbox holds the whole output of the last run, under that length. -/
def Worker.Outputs (worker : Worker) (len : ℕ) : Prop :=
  ∃ output, worker.Wrote output ∧ len = output.length ∧
    load worker.outbox (span 0) output.length = output

/-- What a worker keeps of its outbox, whatever the main thread does. -/
structure Worker.Guarded (worker : Worker) : Prop where
  empty : worker.pc.Filling → worker.outboxLen = 0
  written : ∀ len, worker.pc = .publish len → worker.Outputs len
  published : worker.outboxLen ≠ 0 → worker.Outputs worker.outboxLen

section Guarded

variable {lengths : Lengths} {worker after : Worker}

/-- A step that leaves the outbox and its length alone and publishes nothing. -/
theorem Worker.Guarded.keep (guarded : worker.Guarded) (outbox : after.outbox = worker.outbox)
    (outboxLen : after.outboxLen = worker.outboxLen) (log : after.log.yields = worker.log.yields)
    (filling : after.pc.Filling → worker.outboxLen = 0) (quiet : ∀ len, after.pc ≠ .publish len) :
    after.Guarded := by
  refine ⟨fun inside => outboxLen.trans (filling inside), fun len here => absurd here (quiet len), ?_⟩
  intro some
  rw [outboxLen] at some ⊢
  obtain ⟨output, ⟨input, last⟩, same, bytes⟩ := guarded.published some
  exact ⟨output, ⟨input, by rw [log]; exact last⟩, same, by rw [outbox]; exact bytes⟩

/-- **Every step of a worker** keeps its outbox in order. -/
theorem RunStep.guarded (taken : RunStep lengths worker after) (guarded : worker.Guarded) :
    after.Guarded := by
  cases taken with
  | stopped | looped | waits | finds | locks | setBusy | outboxFull | spins | clearsInbox | clearsBusy =>
    exact guarded.keep rfl rfl rfl nofun nofun
  | outboxEmpty _ none => exact guarded.keep rfl rfl rfl (fun _ => none) nofun
  | enters here | reads _ here =>
    exact guarded.keep rfl rfl rfl (fun _ => guarded.empty (by rw [here]; trivial)) nofun
  | yields input output here _ =>
    have none := guarded.empty (by rw [here]; trivial)
    refine ⟨fun _ => none, fun len same => ?_, fun some => absurd none some⟩
    cases same
    exact ⟨output, ⟨input, List.getLast?_concat⟩, rfl,
      load_write_cells worker.outbox (span 0) output (span_injOn _ _)⟩
  | publishes len here => exact ⟨nofun, nofun, fun _ => guarded.written len here⟩

/-- With an output in the outbox a worker writes neither the outbox nor its length. -/
theorem RunStep.outbox_kept (taken : RunStep lengths worker after) (guarded : worker.Guarded)
    (some : worker.outboxLen ≠ 0) :
    after.outbox = worker.outbox ∧ after.outboxLen = worker.outboxLen ∧
      after.log.yields = worker.log.yields := by
  have outside : ¬ worker.pc.Filling := fun filling => some (guarded.empty filling)
  cases taken with
  | yields input output here _ => exact absurd (by rw [here]; trivial) outside
  | publishes len here => exact absurd (by rw [here]; trivial) outside
  | _ => exact ⟨rfl, rfl, rfl⟩

end Guarded

/-! ### `CollectRsp` -/

section Collect

variable {W : Type} [DecidableEq W] {lengths : Lengths} {pool after : Pool W}

/-- What the main thread has read so far is still so. -/
def Collecting (pool : Pool W) : MainPc W → Prop
  | .collectRead _ w _ _ => (pool.worker w).outboxLen ≠ 0
  | .collectCopy _ w _ len => (pool.worker w).outboxLen ≠ 0 ∧ len = (pool.worker w).outboxLen
  | .collectLen _ w _ output => (pool.worker w).outboxLen ≠ 0 ∧ (pool.worker w).Wrote output ∧
      (pool.worker w).outboxLen = output.length
  | .collectClear _ w _ output outputLen => (pool.worker w).outboxLen ≠ 0 ∧
      (pool.worker w).Wrote output ∧ (pool.worker w).outboxLen = output.length ∧
      outputLen = output.length
  | _ => True

/-- The invariant of every run. -/
structure CollectInv (pool : Pool W) : Prop where
  worker : ∀ w, (pool.worker w).Guarded
  main : Collecting pool pool.main

omit [DecidableEq W] in
theorem Collecting.congr {main : MainPc W} (collecting : Collecting pool main)
    (kept : ∀ w, (pool.worker w).outboxLen ≠ 0 →
      (after.worker w).outboxLen = (pool.worker w).outboxLen ∧
        (after.worker w).log.yields = (pool.worker w).log.yields) : Collecting after main := by
  have wrote : ∀ w output, (pool.worker w).outboxLen ≠ 0 → (pool.worker w).Wrote output →
      (after.worker w).Wrote output := by
    rintro w output some ⟨input, last⟩
    exact ⟨input, by rw [(kept w some).2]; exact last⟩
  cases main with
  | collectRead passed w rest outputLen => exact (kept w collecting).1.trans_ne collecting
  | collectCopy passed w rest len =>
    obtain ⟨some, same⟩ := collecting
    exact ⟨(kept w some).1.trans_ne some, same.trans (kept w some).1.symm⟩
  | collectLen passed w rest output =>
    obtain ⟨some, last, same⟩ := collecting
    exact ⟨(kept w some).1.trans_ne some, wrote w output some last, (kept w some).1.trans same⟩
  | collectClear passed w rest output outputLen =>
    obtain ⟨some, last, same, reported⟩ := collecting
    exact ⟨(kept w some).1.trans_ne some, wrote w output some last, (kept w some).1.trans same, reported⟩
  | idle | deliverTest | deliverCopy | deliverLen | deliverWake | scan | collectSize | collectEmpty =>
    trivial

/-- A change of one worker. -/
theorem CollectInv.guarded (inv : CollectInv pool) {w : W} {worker : Worker} (mine : worker.Guarded)
    (other : W) : (Function.update pool.worker w worker other).Guarded :=
  (Function.forall_update_iff pool.worker fun _ => Worker.Guarded).mpr
    ⟨mine, fun other _ => inv.worker other⟩ other

/-- **A worker's step** keeps the invariant. -/
theorem CollectInv.run (inv : CollectInv pool) (w : W) {worker : Worker}
    (taken : RunStep lengths (pool.worker w) worker) : CollectInv (pool.set w worker) := by
  refine ⟨inv.guarded (taken.guarded (inv.worker w)), inv.main.congr fun other some => ?_⟩
  by_cases same : other = w
  · subst same
    rw [pool.set_self]
    exact (taken.outbox_kept (inv.worker other) some).2
  · rw [pool.set_other worker same]
    exact ⟨rfl, rfl⟩

/-- **A step of the main thread** keeps the invariant. -/
theorem CollectInv.mainStep (inv : CollectInv pool) (taken : MainStep lengths pool after) :
    CollectInv after := by
  have main := inv.main
  cases taken with
  | stop w here =>
    have mine := inv.worker w
    refine ⟨inv.guarded ⟨mine.empty, mine.written, mine.published⟩, ?_⟩
    show Collecting _ pool.main
    rw [here]
    trivial
  | deliverCopy w | deliverLen w | deliverWake w =>
    have mine := inv.worker w
    exact ⟨inv.guarded ⟨mine.empty, mine.written, mine.published⟩, trivial⟩
  | processNone => exact inv
  | process | deliverRefused | deliverPasses | handle | scanEnd | scanBusy | scanFree | collectSmall
  | collectFits | collectNone => exact ⟨inv.worker, trivial⟩
  | collectSome passed w rest outputLen here some => exact ⟨inv.worker, some⟩
  | collectRead passed w rest outputLen here =>
    rw [here] at main
    exact ⟨inv.worker, main, rfl⟩
  | collectCopy passed w rest len here =>
    rw [here] at main
    obtain ⟨some, rfl⟩ := main
    obtain ⟨output, wrote, same, bytes⟩ := (inv.worker w).published some
    rw [same, bytes]
    exact ⟨inv.worker, some, wrote, same⟩
  | collectLen passed w rest output here =>
    rw [here] at main
    obtain ⟨some, wrote, same⟩ := main
    exact ⟨inv.worker, some, wrote, same, same⟩
  | collectClear passed w rest output outputLen here =>
    have mine := inv.worker w
    exact ⟨inv.guarded ⟨fun _ => rfl, mine.written, fun some => absurd rfl some⟩, trivial⟩

/-! ### What is handed out -/

/-- One step of `CollectRsp`: it copies no more than the caller's buffer holds, the bytes it copies are
the whole output of the worker's last run, under the length the worker published, and it reports that
length. -/
structure CollectsWell (before after : Pool W) : Prop where
  fits : ∀ passed w rest outputLen len, before.main = .collectRead passed w rest outputLen →
    after.main = .collectCopy passed w rest len → len ≤ outputLen
  whole : ∀ passed w rest len output, before.main = .collectCopy passed w rest len →
    after.main = .collectLen passed w rest output →
    (before.worker w).Wrote output ∧ len = output.length ∧ (before.worker w).outboxLen = output.length
  reported : ∀ passed w rest output outputLen, before.main = .collectLen passed w rest output →
    after.main = .collectClear passed w rest output outputLen → outputLen = output.length

/-- A worker publishes more than the caller's buffer holds between the size check of `CollectRsp` and its
emptiness check. -/
def Overtakes (before after : Pool W) : Prop :=
  ∃ passed w rest outputLen len, before.main = .collectEmpty passed w rest outputLen ∧
    (before.worker w).pc = .publish len ∧ (after.worker w).pc = .clearInbox ∧ outputLen < len

/-- What the size check has established. -/
def SizeChecked (pool : Pool W) : Prop :=
  ∀ passed w rest outputLen, pool.main = .collectEmpty passed w rest outputLen ∨
    pool.main = .collectRead passed w rest outputLen → (pool.worker w).outboxLen ≤ outputLen

/-- The next step of the main thread between the emptiness check and the report. -/
def CollectNext (pool after : Pool W) : MainPc W → Prop
  | .collectRead passed w rest _ =>
      after = { pool with main := .collectCopy passed w rest (pool.worker w).outboxLen }
  | .collectCopy passed w rest len =>
      after = { pool with main := .collectLen passed w rest (load (pool.worker w).outbox (span 0) len) }
  | .collectLen passed w rest output =>
      after = { pool with main := .collectClear passed w rest output (pool.worker w).outboxLen }
  | _ => True

theorem MainStep.collectNext (taken : MainStep lengths pool after) : CollectNext pool after pool.main := by
  cases taken with
  | collectRead _ _ _ _ here | collectCopy _ _ _ _ here | collectLen _ _ _ _ here =>
    rw [here]
    rfl
  | stop _ here | processNone _ here | process _ _ _ here | deliverRefused _ _ here
  | deliverPasses _ _ here | deliverCopy _ _ here | deliverLen _ _ here | deliverWake _ _ here
  | handle _ here | scanEnd _ _ here | scanBusy _ _ _ _ here | scanFree _ _ _ _ here
  | collectSmall _ _ _ _ here | collectFits _ _ _ _ here | collectNone _ _ _ _ here
  | collectSome _ _ _ _ here | collectClear _ _ _ _ _ here =>
    rw [here]
    trivial

/-- **From the emptiness check on** the reads agree. -/
theorem CollectInv.collectsWell (inv : CollectInv pool) (checked : SizeChecked pool) {actor : Actor W}
    (taken : PoolStep lengths pool actor after) : CollectsWell pool after := by
  have main := inv.main
  cases taken with
  | worker w worker step =>
    -- the main thread stays where it is
    refine ⟨fun _ _ _ _ _ here there => ?_, fun _ _ _ _ _ here there => ?_,
      fun _ _ _ _ _ here there => ?_⟩
    · cases here.symm.trans there
    · cases here.symm.trans there
    · cases here.symm.trans there
  | main _ step =>
    have next := step.collectNext
    refine ⟨fun passed w rest outputLen len here there => ?_, fun passed w rest len output here there => ?_,
      fun passed w rest output outputLen here there => ?_⟩
    · rw [here] at next
      cases next
      cases there
      exact checked passed w rest outputLen (Or.inr here)
    · rw [here] at next main
      obtain ⟨some, rfl⟩ := main
      obtain ⟨written, wrote, same, bytes⟩ := (inv.worker w).published some
      cases next
      rw [same, bytes] at there
      cases there
      exact ⟨wrote, same, same⟩
    · rw [here] at next main
      cases next
      cases there
      exact main.2.2

/-- A worker's step leaves the length of its output alone, or publishes. -/
theorem RunStep.outboxLen_cases {worker next : Worker} (taken : RunStep lengths worker next) :
    next.outboxLen = worker.outboxLen ∨
      worker.pc = .publish next.outboxLen ∧ next.pc = .clearInbox := by
  cases taken with
  | publishes len here => exact Or.inr ⟨here, rfl⟩
  | _ => exact Or.inl rfl

/-- **What the size check has established** lasts, if no publication overtakes it. -/
theorem SizeChecked.step (checked : SizeChecked pool) (inv : CollectInv pool) {actor : Actor W}
    (taken : PoolStep lengths pool actor after) (ordered : ¬Overtakes pool after) :
    SizeChecked after := by
  intro passed w rest outputLen stands
  cases taken with
  | worker owner worker step =>
    have before := checked passed w rest outputLen stands
    by_cases same : w = owner
    case neg =>
      rw [pool.set_other worker same]
      exact before
    subst same
    rw [pool.set_self]
    rcases step.outboxLen_cases with kept | ⟨publishes, cleared⟩
    · rw [kept]
      exact before
    rcases stands with (here | here : pool.main = _ ∨ pool.main = _)
    · by_contra long
      exact ordered ⟨passed, w, rest, outputLen, _, here, publishes, by rw [pool.set_self]; exact cleared,
        Nat.not_le.mp long⟩
    · -- behind the emptiness check the worker has nothing to publish
      have main := inv.main
      rw [here] at main
      exact absurd ((inv.worker w).empty (by rw [publishes]; trivial)) main
  | main _ step =>
    cases step with
    | collectFits _ _ _ _ here fits =>
      rcases stands with same | same
      · cases same
        exact Nat.not_lt.mp fits
      · cases same
    | collectSome _ _ _ _ here _ =>
      rcases stands with same | same
      · cases same
      · cases same
        exact checked _ _ _ _ (Or.inl here)
    | stop _ here | processNone _ here =>
      rcases stands with same | same
      · cases here.symm.trans same
      · cases here.symm.trans same
    | _ =>
      rcases stands with same | same
      · cases same
      · cases same

/-- The step from `.publish len` writes `outbox_len_`. -/
theorem RunStep.published {worker next : Worker} {len : ℕ} (taken : RunStep lengths worker next)
    (here : worker.pc = .publish len) : next.outboxLen = len := by
  cases taken with
  | publishes own at_ => exact RunPc.publish.inj (at_.symm.trans here)
  | stopped at_ | looped at_ | waits at_ | finds at_ | locks at_ | setBusy at_ | outboxFull at_
  | outboxEmpty at_ | spins at_ | enters at_ | reads _ at_ | yields _ _ at_ | clearsInbox at_
  | clearsBusy at_ => cases here.symm.trans at_

/-- A publication while the main thread stands at the emptiness check. -/
theorem PoolStep.published {actor : Actor W} {passed rest : List W} {w : W} {outputLen len : ℕ}
    (taken : PoolStep lengths pool actor after) (here : pool.main = .collectEmpty passed w rest outputLen)
    (publishes : (pool.worker w).pc = .publish len) (cleared : (after.worker w).pc = .clearInbox) :
    after.main = .collectEmpty passed w rest outputLen ∧ (after.worker w).outboxLen = len := by
  cases taken with
  | main _ step =>
    cases step with
    | collectNone _ owner _ _ at_ | collectSome _ owner _ _ at_ => cases publishes.symm.trans cleared
    | stop _ at_ | processNone _ at_ | process _ _ _ at_ | deliverRefused _ _ at_
    | deliverPasses _ _ at_ | deliverCopy _ _ at_ | deliverLen _ _ at_ | deliverWake _ _ at_
    | handle _ at_ | scanEnd _ _ at_ | scanBusy _ _ _ _ at_ | scanFree _ _ _ _ at_
    | collectSmall _ _ _ _ at_ | collectFits _ _ _ _ at_ | collectRead _ _ _ _ at_
    | collectCopy _ _ _ _ at_ | collectLen _ _ _ _ at_ | collectClear _ _ _ _ _ at_ =>
      cases here.symm.trans at_
  | worker owner worker step =>
    by_cases same : w = owner
    · subst same
      rw [pool.set_self]
      exact ⟨here, step.published publishes⟩
    · rw [pool.set_other worker same, publishes] at cleared
      cases cleared

/-- **After a publication that overtakes the size check** the main thread's next two steps copy too much. -/
theorem Overtakes.overflows (late : Overtakes pool after) {actor : Actor W}
    (taken : PoolStep lengths pool actor after) :
    ∃ next last, PoolStep lengths after .main next ∧ PoolStep lengths next .main last ∧
      ¬CollectsWell next last := by
  obtain ⟨passed, w, rest, outputLen, len, here, publishes, cleared, long⟩ := late
  obtain ⟨main, published⟩ := taken.published here publishes cleared
  have some : (after.worker w).outboxLen ≠ 0 := by
    rw [published]
    exact (Nat.zero_lt_of_lt long).ne'
  refine ⟨_, _, .main _ _ (.collectSome after passed w rest outputLen main some),
    .main _ _ (.collectRead _ passed w rest outputLen rfl), fun well => ?_⟩
  have fits := well.fits passed w rest outputLen _ rfl rfl
  rw [show _ = len from published] at fits
  exact absurd long (Nat.not_lt.mpr fits)

end Collect

/-! ### Every run -/

section Runs

variable {size : ℕ} {lengths : Lengths} {pool : Pool (Fin size)}

theorem Pool.Started.collectInv (started : pool.Started) : CollectInv pool := by
  obtain ⟨workers, _, _, idle⟩ := started
  refine ⟨fun w => ?_, ?_⟩
  · obtain ⟨inbox, outbox, fresh⟩ := workers w
    rw [fresh]
    exact ⟨nofun, nofun, fun some => absurd rfl some⟩
  · rw [idle]
    trivial

theorem PoolStep.collectInv {after : Pool (Fin size)} {actor : Actor (Fin size)} (inv : CollectInv pool)
    (taken : PoolStep lengths pool actor after) : CollectInv after := by
  cases taken with
  | main _ step => exact inv.mainStep step
  | worker w worker step => exact inv.run w step

/-- Runs in which no worker publishes too much between the two checks of `CollectRsp`. -/
def orderedMachine (size : ℕ) (lengths : Lengths) : Machine (Pool (Fin size)) (Actor (Fin size)) :=
  (poolMachine size lengths).restrict fun before after => ¬Overtakes before after

theorem orderedMachine_inv (reached : (orderedMachine size lengths).Reachable pool) :
    CollectInv pool ∧ SizeChecked pool := by
  have base : ∀ start, (orderedMachine size lengths).init start → CollectInv start ∧ SizeChecked start := by
    intro start started
    refine ⟨Pool.Started.collectInv started, fun _ _ _ _ stands => ?_⟩
    have idle : start.main = .idle := started.2.2.2
    rcases stands with same | same
    · cases idle.symm.trans same
    · cases idle.symm.trans same
  refine reached.invariant base ?_
  rintro last actor next _ ⟨inv, checked⟩ ⟨taken, ordered⟩
  exact ⟨PoolStep.collectInv inv taken, checked.step inv taken ordered⟩

end Runs

/-- **Response collection.** For any number of workers, any lengths of requests, outputs and buffers and
every interleaving: as long as no worker publishes an output longer than the caller's buffer between the
size check of `CollectRsp` and its emptiness check, every step of `CollectRsp` copies at most `output_len`
bytes, these are the whole output of the worker's last run, under the length it published, and that length
is reported. After such a publication, in any run, the next two steps of the main thread copy too much. -/
theorem collect_respects_buffer (size : ℕ) (lengths : Lengths) :
    (∀ pool, (orderedMachine size lengths).Reachable pool → ∀ actor after,
      PoolStep lengths pool actor after → CollectsWell pool after) ∧
    ∀ pool, (poolMachine size lengths).Reachable pool → ∀ actor after,
      PoolStep lengths pool actor after → Overtakes pool after →
      ∃ next last, PoolStep lengths after .main next ∧ PoolStep lengths next .main last ∧
        ¬CollectsWell next last := by
  refine ⟨fun pool reached actor after taken => ?_, fun pool _ actor after taken late => ?_⟩
  · obtain ⟨inv, checked⟩ := orderedMachine_inv reached
    exact inv.collectsWell checked taken
  · exact late.overflows taken

theorem not_overtakes {W : Type} {before after : Pool W}
    (elsewhere : ∀ passed w rest outputLen, before.main ≠ .collectEmpty passed w rest outputLen) :
    ¬Overtakes before after :=
  fun ⟨passed, w, rest, outputLen, _, here, _⟩ => elsewhere passed w rest outputLen here

/-- A response of one byte, published before `CollectRsp` is called with a buffer of one byte. -/
theorem collect_respects_buffer_byte :
    ∃ pool after, (orderedMachine 1 fullLengths).Reachable pool ∧
      pool.main = .collectRead [] 0 [] 1 ∧ after.main = .collectCopy [] 0 [] 1 ∧
      CollectsWell pool after := by
  have start : (orderedMachine 1 fullLengths).Reachable onePool := .start onePool_started
  have calls := start.next ⟨.main _ _ (.process _ [7] 0 [] rfl trivial rfl), not_overtakes nofun⟩
  have passes := calls.next ⟨.main _ _ (.deliverPasses _ 0 [7] rfl rfl (by decide)), not_overtakes nofun⟩
  have copied := passes.next ⟨.main _ _ (.deliverCopy _ 0 [7] rfl), not_overtakes nofun⟩
  have written := copied.next ⟨.main _ _ (.deliverLen _ 0 [7] rfl), not_overtakes nofun⟩
  have unlocked := written.next ⟨.main _ _ (.deliverWake _ 0 [7] rfl), not_overtakes nofun⟩
  have looped := unlocked.next ⟨.worker _ 0 _ (.looped _ rfl rfl), not_overtakes nofun⟩
  have finds := looped.next ⟨.worker _ 0 _ (.finds _ rfl Nat.one_ne_zero), not_overtakes nofun⟩
  have busy := finds.next ⟨.worker _ 0 _ (.setBusy _ rfl), not_overtakes nofun⟩
  have tests := busy.next ⟨.worker _ 0 _ (.outboxEmpty _ rfl rfl), not_overtakes nofun⟩
  have enters := tests.next ⟨.worker _ 0 _ (.enters _ rfl), not_overtakes nofun⟩
  have reads := enters.next ⟨.worker _ 0 _ (.reads _ 1 rfl), not_overtakes nofun⟩
  have yields := reads.next ⟨.worker _ 0 _ (.yields _ _ [9] rfl trivial), not_overtakes nofun⟩
  have published := yields.next ⟨.worker _ 0 _ (.publishes _ 1 rfl), not_overtakes nofun⟩
  have cleared := published.next ⟨.worker _ 0 _ (.clearsInbox _ rfl), not_overtakes nofun⟩
  have idle := cleared.next ⟨.worker _ 0 _ (.clearsBusy _ rfl), not_overtakes nofun⟩
  have handles := idle.next ⟨.main _ _ (.handle _ 1 rfl trivial), not_overtakes nofun⟩
  have free := handles.next ⟨.main _ _ (.scanFree _ [] 0 [] 1 rfl rfl), not_overtakes nofun⟩
  have fits := free.next ⟨.main _ _ (.collectFits _ [] 0 [] 1 rfl (by decide)), not_overtakes nofun⟩
  have full := fits.next ⟨.main _ _ (.collectSome _ [] 0 [] 1 rfl Nat.one_ne_zero), by
    rintro ⟨_, _, _, _, _, here, publishes, _⟩
    cases here
    cases publishes⟩
  exact ⟨_, _, full, rfl, rfl, (collect_respects_buffer 1 fullLengths).1 _ full _ _
    (.main _ _ (.collectRead _ [] 0 [] 1 rfl))⟩

/-- Two bytes are published between the size check for a buffer of one byte and the emptiness check; both
are copied. -/
theorem collect_fails_overtaken :
    ∃ pool after, (poolMachine 1 fullLengths).Reachable pool ∧ PoolStep fullLengths pool .main after ∧
      pool.main = .collectRead [] 0 [] 1 ∧ after.main = .collectCopy [] 0 [] 2 ∧
      ¬CollectsWell pool after := by
  have start : (poolMachine 1 fullLengths).Reachable onePool := .start onePool_started
  have unlocked := @poolMachine_delivered _ _ _ [7] 0 [] start rfl rfl rfl trivial (by decide)
  have handles := unlocked.next (.main _ _ (.handle _ 1 rfl trivial))
  -- `busy_` is read before the worker sets it, and `outbox_len_` while it is zero
  have idleRead := handles.next (.main _ _ (.scanFree _ [] 0 [] 1 rfl rfl))
  have fits := idleRead.next (.main _ _ (.collectFits _ [] 0 [] 1 rfl (by decide)))
  have reads := @poolMachine_atProcess _ _ _ 0 fits rfl rfl Nat.one_ne_zero rfl
  have yields := reads.next (.worker _ 0 _ (.yields _ _ [9, 9] rfl trivial))
  have published := yields.next (.worker _ 0 _ (.publishes _ 2 rfl))
  have full := published.next (.main _ _ (.collectSome _ [] 0 [] 1 rfl (by decide)))
  refine ⟨_, _, full, .main _ _ (.collectRead _ [] 0 [] 1 rfl), rfl, rfl, fun well => ?_⟩
  exact absurd (well.fits [] 0 [] 1 2 rfl rfl) (by decide)

end Yarf.Thread
