/-
**The life of a thread object.**

`CThread::Start` tests `start_`, creates a thread and sets `start_`; the thread clears `start_` when its
`Run` has returned. A `Run` may be over before the owner has set the flag: the thread's write then comes
first (`ClearsEarly`) and the flag stays set for a thread that has finished.

* `CThread.Alone` — one thread at a time, in every run;
* `CThread.Exact` — what every step keeps in a run without such a step;
* `CThread.Stuck` — after such a step no later `Start` succeeds;
* `start_flag_exact` puts them together.
-/

import Yarf.Lib.Machine

namespace Yarf.Thread

open Lib

/-! ### The object, its owner and its threads -/

/-- Where `ThreadProc` is: in `Run`, behind it, or behind the write `start_ = false`. -/
inductive ThreadPc
  | running | returned | ended
  deriving DecidableEq

/-- Where the owner is: between calls, in `Start` before the test of `start_`, before `pthread_create` and
before the write `start_ = true`, or in `Wait`. -/
inductive OwnerPc
  | outside | test | create | created | join
  deriving DecidableEq

/-- In `CThread::Start`. -/
def OwnerPc.InStart : OwnerPc → Prop
  | .test | .create | .created => True
  | .outside | .join => False

/-- `CThread`, with the threads it has created, oldest first; `threadId` is the position of the last one. -/
structure CThread where
  threadId : Option ℕ
  stop : Bool
  start : Bool
  threads : List ThreadPc
  owner : OwnerPc

/-- `CThread::CThread`. -/
def CThread.new : CThread := ⟨none, false, false, [], .outside⟩

/-- What a step shows. -/
inductive LifeEvent
  | call
  | test
  | create
  | startReturns (ok : Bool)
  | waitReturns
  | stop
  | thread (i : ℕ)

/-- One step of the owner or of a thread. `createFails` says whether `pthread_create` may fail. -/
inductive LifeStep (createFails : Prop) : CThread → LifeEvent → CThread → Prop
  | callStart (object : CThread) : object.owner = .outside →
      LifeStep createFails object .call { object with owner := .test }
  | refused (object : CThread) : object.owner = .test → object.start = true →
      LifeStep createFails object (.startReturns false) { object with owner := .outside }
  | passes (object : CThread) : object.owner = .test → object.start = false →
      LifeStep createFails object .test { object with owner := .create }
  | fails (object : CThread) : createFails → object.owner = .create →
      LifeStep createFails object (.startReturns false) { object with owner := .outside }
  | creates (object : CThread) : object.owner = .create →
      LifeStep createFails object .create { object with
        threadId := some object.threads.length, threads := object.threads ++ [.running],
        owner := .created }
  | started (object : CThread) : object.owner = .created →
      LifeStep createFails object (.startReturns true) { object with start := true, owner := .outside }
  | callWait (object : CThread) : object.owner = .outside →
      LifeStep createFails object .call { object with owner := .join }
  | joined (object : CThread) : object.owner = .join →
      (∀ i, object.threadId = some i → object.threads[i]? = some .ended) →
      LifeStep createFails object .waitReturns { object with owner := .outside }
  | stop (object : CThread) : object.owner = .outside →
      LifeStep createFails object .stop { object with stop := true }
  | returns (object : CThread) (i : ℕ) : object.threads[i]? = some .running →
      LifeStep createFails object (.thread i) { object with threads := object.threads.set i .returned }
  | clears (object : CThread) (i : ℕ) : object.threads[i]? = some .returned →
      LifeStep createFails object (.thread i) { object with
        start := false, threads := object.threads.set i .ended }

/-- A new object, its owner and the threads it creates. -/
def lifeMachine (createFails : Prop) : Machine CThread LifeEvent where
  init object := object = CThread.new
  step := LifeStep createFails

/-- Thread `i` has been created and has not cleared `start_` yet. -/
def Unfinished (threads : List ThreadPc) (i : ℕ) : Prop := ∃ pc, threads[i]? = some pc ∧ pc ≠ .ended

/-- A thread clears `start_` while the owner is between `pthread_create` and `start_ = true`. -/
def ClearsEarly (before after : CThread) : Prop :=
  before.owner = .created ∧ ∃ i : ℕ, before.threads[i]? = some .returned ∧
    after.threads[i]? = some .ended

/-! ### The threads of one object -/

section Threads

variable {threads : List ThreadPc} {i j : ℕ}

/-- A new thread is unfinished, and the others are as they were. -/
theorem unfinished_append :
    Unfinished (threads ++ [.running]) i ↔ Unfinished threads i ∨ i = threads.length := by
  unfold Unfinished
  rcases Nat.lt_trichotomy i threads.length with before | rfl | behind
  · simp [List.getElem?_append_left before, Nat.ne_of_lt before]
  · simp
  · have outside : (threads ++ [ThreadPc.running])[i]? = none := by
      simp
      omega
    simp [outside, List.getElem?_eq_none (Nat.le_of_lt behind), Nat.ne_of_gt behind]

/-- A thread that has returned is as unfinished as it was. -/
theorem unfinished_returned (here : threads[j]? = some .running) :
    Unfinished (threads.set j .returned) i ↔ Unfinished threads i := by
  have inside := (List.getElem?_eq_some_iff.mp here).1
  unfold Unfinished
  by_cases same : i = j
  · subst same
    simp [here, List.getElem?_set_self inside]
  · rw [List.getElem?_set_ne (Ne.symm same)]

/-- One that has cleared the flag has finished. -/
theorem unfinished_ended (inside : j < threads.length) :
    Unfinished (threads.set j .ended) i ↔ Unfinished threads i ∧ i ≠ j := by
  unfold Unfinished
  by_cases same : i = j
  · subst same
    simp [List.getElem?_set_self inside]
  · simp [List.getElem?_set_ne (Ne.symm same), same]

end Threads

/-! ### One thread at a time -/

section Alone

variable {createFails : Prop} {object after : CThread} {event : LifeEvent} {i : ℕ}

/-- Only the last thread created can be unfinished, and then the flag is set or about to be. -/
structure CThread.Alone (object : CThread) : Prop where
  last : ∀ i, Unfinished object.threads i → i + 1 = object.threads.length
  flag : ∀ i, Unfinished object.threads i → object.owner ≠ .create ∧
    (object.start = true ∨ object.owner = .created)

/-- When the last thread clears the flag, all have finished. -/
theorem CThread.Alone.ended (alone : object.Alone) (here : object.threads[i]? = some .returned) (j : ℕ) :
    ¬Unfinished (object.threads.set i .ended) j := by
  intro unfinished
  obtain ⟨before, other⟩ := (unfinished_ended (List.getElem?_eq_some_iff.mp here).1).mp unfinished
  have lastJ := alone.last j before
  have lastI := alone.last i ⟨_, here, nofun⟩
  omega

theorem LifeStep.alone (taken : LifeStep createFails object event after) (alone : object.Alone) :
    after.Alone := by
  obtain ⟨last, flag⟩ := alone
  cases taken with
  | callStart here | callWait here | joined here =>
    refine ⟨last, fun i unfinished => ⟨nofun, Or.inl ?_⟩⟩
    simpa [here] using (flag i unfinished).2
  | stop here => exact ⟨last, flag⟩
  | refused here set =>
    exact ⟨last, fun i unfinished => ⟨nofun, Or.inl set⟩⟩
  | passes here clear =>
    refine ⟨last, fun i unfinished => ?_⟩
    simpa [here, clear] using (flag i unfinished).2
  | fails _ here =>
    exact ⟨last, fun i unfinished => absurd here (flag i unfinished).1⟩
  | started here => exact ⟨last, fun i _ => ⟨nofun, Or.inl rfl⟩⟩
  | creates here =>
    refine ⟨fun i unfinished => ?_, fun _ _ => ⟨nofun, Or.inr rfl⟩⟩
    rcases unfinished_append.mp unfinished with earlier | rfl
    · exact absurd here (flag i earlier).1
    · simp
  | returns j here =>
    refine ⟨fun i unfinished => ?_, fun i unfinished => flag i ((unfinished_returned here).mp unfinished)⟩
    simpa using last i ((unfinished_returned here).mp unfinished)
  | clears j here =>
    have none := CThread.Alone.ended ⟨last, flag⟩ here
    exact ⟨fun i wrong => absurd wrong (none i), fun i wrong => absurd wrong (none i)⟩

theorem unfinished_nil (i : ℕ) : ¬Unfinished [] i := by
  rintro ⟨pc, wrong, _⟩
  cases wrong

theorem alone_new : CThread.new.Alone :=
  ⟨fun i wrong => absurd wrong (unfinished_nil i), fun i wrong => absurd wrong (unfinished_nil i)⟩

theorem lifeMachine_alone (reached : (lifeMachine createFails).Reachable object) : object.Alone := by
  have base : ∀ start, (lifeMachine createFails).init start → start.Alone := by
    rintro start rfl
    exact alone_new
  exact reached.invariant base fun _ _ _ _ alone taken => LifeStep.alone taken alone

end Alone

/-! ### The flag is exact -/

section Exact

variable {createFails : Prop} {object after : CThread} {event : LifeEvent}

/-- The flag is set while a thread is unfinished; between `pthread_create` and the write a thread is, and
the flag is not set yet. -/
structure CThread.Exact (object : CThread) : Prop where
  flag : object.owner ≠ .create → object.owner ≠ .created →
    (object.start = true ↔ ∃ i, Unfinished object.threads i)
  create : object.owner = .create → object.start = false
  created : object.owner = .created → ∃ i, Unfinished object.threads i

/-- **A step that clears nothing early** keeps the flag exact. -/
theorem LifeStep.exact (taken : LifeStep createFails object event after) (alone : object.Alone)
    (exact : object.Exact) (inTime : ¬ClearsEarly object after) : after.Exact := by
  obtain ⟨flag, create, created⟩ := exact
  cases taken with
  | callStart here | callWait here | joined here =>
    rw [here] at flag
    exact ⟨fun _ _ => flag nofun nofun, nofun, nofun⟩
  | stop here => exact ⟨flag, create, created⟩
  | refused here =>
    rw [here] at flag
    exact ⟨fun _ _ => flag nofun nofun, nofun, nofun⟩
  | passes here clear => exact ⟨fun wrong => absurd rfl wrong, fun _ => clear, nofun⟩
  | fails _ here =>
    have none : ∀ i, ¬Unfinished object.threads i := fun i wrong => (alone.flag i wrong).1 here
    refine ⟨fun _ _ => ?_, nofun, nofun⟩
    simp [create here, none]
  | started here =>
    exact ⟨fun _ _ => ⟨fun _ => created here, fun _ => rfl⟩, nofun, nofun⟩
  | creates here =>
    exact ⟨fun _ wrong => absurd rfl wrong, nofun, fun _ => ⟨_, unfinished_append.mpr (Or.inr rfl)⟩⟩
  | returns j here =>
    have same : ∀ i, Unfinished (object.threads.set j .returned) i ↔ Unfinished object.threads i :=
      fun i => unfinished_returned here
    refine ⟨fun outside later => ?_, create, fun here => ?_⟩
    · simp only [same]
      exact flag outside later
    · simp only [same]
      exact created here
  | clears j here =>
    have none := alone.ended here
    refine ⟨fun _ _ => by simp [none], fun _ => rfl, fun creating => ?_⟩
    have inside := (List.getElem?_eq_some_iff.mp here).1
    exact absurd ⟨creating, j, here, List.getElem?_set_self inside⟩ inTime

theorem exact_new : CThread.new.Exact := by
  refine ⟨fun _ _ => ?_, nofun, nofun⟩
  simp [CThread.new, unfinished_nil]

/-- The steps that clear nothing early. -/
def InTime (before after : CThread) : Prop := ¬ClearsEarly before after

theorem lifeMachine_exact (reached : ((lifeMachine createFails).restrict InTime).Reachable object) :
    object.Alone ∧ object.Exact := by
  have base : ∀ start, ((lifeMachine createFails).restrict InTime).init start →
      start.Alone ∧ start.Exact := by
    rintro start rfl
    exact ⟨alone_new, exact_new⟩
  refine reached.invariant base ?_
  rintro last event next _ ⟨alone, exact⟩ ⟨taken, inTime⟩
  exact ⟨LifeStep.alone taken alone, LifeStep.exact taken alone exact inTime⟩

end Exact

/-! ### A call of `Start` -/

section Start

variable {createFails : Prop} {object after : CThread} {event : LifeEvent}

def LifeEvent.ofOwner : LifeEvent → Bool
  | .thread _ => false
  | _ => true

/-- What the owner does in a `Start` that returns true. -/
def startEvents : List LifeEvent := [.test, .create, .startReturns true]

/-- `Start`, called now, returns true: whatever the threads do meanwhile, the owner's events are those of
such a call, and until it returns the owner is not blocked. -/
def StartSucceeds (object : CThread) : Prop :=
  ∀ events after, (lifeMachine False).Run { object with owner := .test } events after →
    startEvents <+: events.filter LifeEvent.ofOwner ∨
    ∃ event next, LifeStep False after event next ∧
      events.filter LifeEvent.ofOwner ++ [event] <+: startEvents

/-- How far the call has come. -/
inductive StartAt (after : CThread) : List LifeEvent → Prop
  | test : after.owner = .test → after.start = false → StartAt after []
  | create : after.owner = .create → StartAt after [.test]
  | created : after.owner = .created → StartAt after [.test, .create]
  | returned (rest : List LifeEvent) : StartAt after (startEvents ++ rest)

/-- A thread does not move the owner, and can only clear the flag. -/
theorem LifeStep.thread (taken : LifeStep createFails object event after) (thread : event.ofOwner = false) :
    after.owner = object.owner ∧ (object.start = false → after.start = false) := by
  cases taken with
  | returns => exact ⟨rfl, id⟩
  | clears => exact ⟨rfl, fun _ => rfl⟩
  | _ => cases thread

theorem StartAt.thread {events : List LifeEvent} (here : StartAt object events)
    (taken : LifeStep createFails object event after) (thread : event.ofOwner = false) :
    StartAt after events := by
  obtain ⟨owner, start⟩ := taken.thread thread
  cases here with
  | test at_ clear => exact .test (owner.trans at_) (start clear)
  | create at_ => exact .create (owner.trans at_)
  | created at_ => exact .created (owner.trans at_)
  | returned rest => exact .returned rest

theorem StartAt.owner {events : List LifeEvent} (here : StartAt object events)
    (taken : LifeStep False object event after) (owner : event.ofOwner = true) :
    StartAt after (events ++ [event]) := by
  cases here with
  | test at_ clear =>
    cases taken with
    | passes => exact .create rfl
    | refused _ set => cases clear.symm.trans set
    | returns | clears => cases owner
    | callStart other | fails _ other | creates other | started other | callWait other | joined other
    | stop other => cases at_.symm.trans other
  | create at_ =>
    cases taken with
    | creates => exact .created rfl
    | fails wrong => exact wrong.elim
    | returns | clears => cases owner
    | callStart other | refused other | passes other | started other | callWait other | joined other
    | stop other => cases at_.symm.trans other
  | created at_ =>
    cases taken with
    | started => exact .returned []
    | returns | clears => cases owner
    | callStart other | refused other | passes other | fails _ other | creates other | callWait other
    | joined other | stop other => cases at_.symm.trans other
  | returned rest =>
    rw [List.append_assoc]
    exact .returned _

/-- **`Start` succeeds when the flag is clear.** -/
theorem start_succeeds (clear : object.start = false) : StartSucceeds object := by
  intro events after run
  have here : StartAt after (events.filter LifeEvent.ofOwner) := by
    induction run with
    | nil => exact .test rfl clear
    | @snoc last next labels event _ taken ih =>
      rw [List.filter_append]
      cases owner : event.ofOwner with
      | true => simpa [owner] using ih.owner taken owner
      | false => simpa [owner] using ih.thread taken owner
  generalize events.filter LifeEvent.ofOwner = seen at here ⊢
  cases here with
  | test here clear => exact Or.inr ⟨_, _, .passes after here clear, by simp [startEvents]⟩
  | create here => exact Or.inr ⟨_, _, .creates after here, by simp [startEvents]⟩
  | created here => exact Or.inr ⟨_, _, .started after here, by simp [startEvents]⟩
  | returned rest => exact Or.inl (List.prefix_append _ _)

/-- It fails when the flag is set. -/
theorem start_fails (set : object.start = true) : ¬StartSucceeds object := by
  intro succeeds
  have shown : [LifeEvent.startReturns false].filter LifeEvent.ofOwner = [.startReturns false] := rfl
  rcases succeeds [.startReturns false] _ (.snoc (.nil _) (.refused _ rfl set)) with
    wrong | ⟨event, next, -, wrong⟩
  · simp [shown, startEvents] at wrong
  · simp [shown, startEvents] at wrong

end Start

/-! ### After a flag cleared early -/

section Stuck

variable {createFails : Prop} {object after : CThread} {event : LifeEvent}

/-- All threads have finished, and the flag is set or about to be. -/
structure CThread.Stuck (object : CThread) : Prop where
  finished : ∀ i, ¬Unfinished object.threads i
  flag : object.start = true ∨ object.owner = .created
  owner : object.owner ≠ .create

theorem LifeStep.stuck_of_early (taken : LifeStep createFails object event after)
    (alone : object.Alone) (early : ClearsEarly object after) : after.Stuck := by
  obtain ⟨creating, i, returned, ended⟩ := early
  cases taken with
  | clears j here =>
    exact ⟨alone.ended here, Or.inr creating, by simp [creating]⟩
  | returns j here =>
    by_cases same : i = j
    · subst same
      cases here.symm.trans returned
    · rw [List.getElem?_set_ne (Ne.symm same)] at ended
      cases returned.symm.trans ended
  | callStart other | refused other | passes other | fails _ other | creates other | callWait other
  | joined other | stop other => cases creating.symm.trans other
  | started => cases returned.symm.trans ended

theorem LifeStep.stuck (taken : LifeStep createFails object event after) (stuck : object.Stuck) :
    after.Stuck := by
  obtain ⟨finished, flag, owner⟩ := stuck
  cases taken with
  | callStart here | callWait here | joined here =>
    refine ⟨finished, Or.inl ?_, nofun⟩
    simpa [here] using flag
  | refused _ set => exact ⟨finished, Or.inl set, nofun⟩
  | passes here clear => simp [here, clear] at flag
  | fails _ here | creates here => exact absurd here owner
  | started => exact ⟨finished, Or.inl rfl, nofun⟩
  | stop => exact ⟨finished, flag, owner⟩
  | returns j here => exact absurd ⟨_, here, nofun⟩ (finished j)
  | clears j here => exact absurd ⟨_, here, nofun⟩ (finished j)

/-- Behind the write of the call that was overtaken, no step is the success of a `Start`. -/
theorem CThread.Stuck.refuses {events : List LifeEvent} (stuck : object.Stuck)
    (called : object.owner ≠ .created) (run : (lifeMachine createFails).Run object events after) :
    .startReturns true ∉ events := by
  have keep : after.Stuck ∧ after.owner ≠ .created ∧ .startReturns true ∉ events := by
    induction run with
    | nil => exact ⟨stuck, called, List.not_mem_nil⟩
    | @snoc last next events event _ taken ih =>
      obtain ⟨stuck, called, before⟩ := ih
      have later := LifeStep.stuck taken stuck
      cases taken with
      | creates here => exact absurd here stuck.owner
      | started here => exact absurd here called
      | callStart | refused | passes | fails | callWait | joined => exact ⟨later, nofun, by simpa using before⟩
      | stop | returns | clears => exact ⟨later, called, by simpa using before⟩
  exact keep.2.2

end Stuck

/-- **The flag of a thread object.** For every sequence of `Start`, `Wait` and `Stop` by the owner and every
interleaving with the threads created:

* in a run in which no thread clears `start_` while the owner is between `pthread_create` and
  `start_ = true`, whenever the owner is outside `Start`, `start_` is set iff some thread has not cleared
  it (and, unless one is between the end of its `Run` and that write, iff the `Run` of one is not over);
* in every run at most one thread at a time has not;
* in a run of the first kind, `Start` returns true when it is called and all threads have cleared the flag;
* after a step of the other kind all threads have finished and stay so, `start_` is set whenever the owner
  is outside `Start`, and from the end of the `Start` that was overtaken on none returns true. -/
theorem start_flag_exact (createFails : Prop) (object : CThread) :
    (((lifeMachine createFails).restrict InTime).Reachable object → ¬object.owner.InStart →
      (object.start = true ↔ ∃ i, Unfinished object.threads i) ∧
      (.returned ∉ object.threads → (object.start = true ↔ .running ∈ object.threads))) ∧
    ((lifeMachine createFails).Reachable object →
      ∀ i j, Unfinished object.threads i → Unfinished object.threads j → i = j) ∧
    (((lifeMachine createFails).restrict InTime).Reachable object → object.owner = .outside →
      (∀ i, ¬Unfinished object.threads i) → StartSucceeds object) ∧
    ∀ event after, (lifeMachine createFails).Reachable object →
      LifeStep createFails object event after → ClearsEarly object after →
      ∀ later, (lifeMachine createFails).Leads after later →
        (∀ i, ¬Unfinished later.threads i) ∧ (¬later.owner.InStart → later.start = true) ∧
        (later.owner ≠ .created → ∀ events last, (lifeMachine createFails).Run later events last →
          .startReturns true ∉ events) := by
  refine ⟨fun reached outside => ?_, fun reached i j here there => ?_, fun reached outside finished => ?_,
    fun event after reached taken early later leads => ?_⟩
  · obtain ⟨-, flag, -, -⟩ := lifeMachine_exact reached
    have exact := flag (fun wrong => outside (by simp [wrong, OwnerPc.InStart]))
      fun wrong => outside (by simp [wrong, OwnerPc.InStart])
    refine ⟨exact, fun settled => exact.trans ?_⟩
    constructor
    · rintro ⟨i, pc, here, unfinished⟩
      have member := List.mem_of_getElem? here
      cases pc with
      | running => exact member
      | returned => exact absurd member settled
      | ended => exact absurd rfl unfinished
    · intro member
      obtain ⟨i, here⟩ := List.mem_iff_getElem?.mp member
      exact ⟨i, _, here, nofun⟩
  · have alone := lifeMachine_alone reached
    have lastI := alone.last i here
    have lastJ := alone.last j there
    omega
  · obtain ⟨-, flag, -, -⟩ := lifeMachine_exact reached
    have exact := flag (by simp [outside]) (by simp [outside])
    refine start_succeeds ?_
    simpa [finished] using exact
  · have keep : ∀ last event next, last.Stuck → (lifeMachine createFails).step last event next →
        next.Stuck := fun _ _ _ stuck taken => LifeStep.stuck taken stuck
    have stuck : later.Stuck :=
      leads.invariant keep (taken.stuck_of_early (lifeMachine_alone reached) early)
    refine ⟨stuck.finished, fun outside => ?_, fun called events last run => stuck.refuses called run⟩
    rcases stuck.flag with set | creating
    · exact set
    · exact absurd (by simp [creating, OwnerPc.InStart]) outside

/-- The first thread finishes before `Start` has set the flag. -/
theorem start_flag_fails_short :
    ∃ object, (lifeMachine False).Reachable object ∧ object.owner = .outside ∧ object.start = true ∧
      (∀ i, ¬Unfinished object.threads i) ∧ ¬StartSucceeds object := by
  have start : (lifeMachine False).Reachable CThread.new := .start rfl
  have called := start.next (.callStart _ rfl)
  have passes := called.next (.passes _ rfl rfl)
  have creates := passes.next (.creates _ rfl)
  have returns := creates.next (.returns _ 0 rfl)
  have clears := returns.next (.clears _ 0 rfl)
  have started := clears.next (.started _ rfl)
  exact ⟨_, started, rfl, rfl, (lifeMachine_alone returns).ended rfl, start_fails rfl⟩

end Yarf.Thread
