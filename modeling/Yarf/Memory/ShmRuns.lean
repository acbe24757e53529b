/-
**Finding, creating and keeping segments.**

Any number of objects call `CShm` in any order.

* `initByKey_agrees` — while a key is not taken away, all calls of `InitByKey` with it that return 0 have the same
  segment, and one call at most is told that it is new, the one that created it; a call whose second `shmget` finds
  the segment there has lost a race against another call since its first one;
* `attached_kept` — what an object has attached stays in place until the object itself lets go of it, and its bytes
  are those stored by the objects, unless the call that created it is still zeroing them.
-/

import Yarf.Memory.Shm

namespace Yarf.Memory

open Lib

/-! ### The calls under way -/

/-- The call has this segment under this key, and has not returned. -/
def ShmPc.Targets (key : ShmKey) (id : ShmId) : ShmPc → Prop
  | .attaching key' _ _ id' | .zeroing key' _ id' _ | .storing key' _ id' _ => key' = key ∧ id' = id
  | _ => False

/-- The call has created this segment, and has not returned. -/
def ShmPc.Makes (key : ShmKey) (id : ShmId) : ShmPc → Prop
  | .attaching key' _ false id' | .zeroing key' _ id' _ => key' = key ∧ id' = id
  | _ => False

/-- The call has attached this segment, and has not returned. -/
def ShmPc.Maps (id : ShmId) : ShmPc → Prop
  | .zeroing _ _ id' _ => id' = id
  | .storing _ _ _ content => content = .segment id
  | _ => False

/-- The object has attached this segment. -/
def ShmObject.Maps (object : ShmObject) (id : ShmId) : Prop := object.shm.content = .segment id ∨ object.pc.Maps id

section Steps

variable {object next : ShmObject} {event : ShmEvent} {key : ShmKey} {id : ShmId}

theorem CShmStep.targets (taken : CShmStep object event next) (here : next.pc.Targets key id) :
    object.pc.Targets key id ∨ (∃ size, event = .found key size id) ∨ ∃ size, event = .created key size id := by
  cases taken with
  | found _ _ size _ _ =>
    obtain ⟨rfl, rfl⟩ := here
    exact .inr (.inl ⟨size, rfl⟩)
  | fresh _ size _ _ | created _ _ size _ =>
    obtain ⟨rfl, rfl⟩ := here
    exact .inr (.inr ⟨size, rfl⟩)
  | attached | unattached | attachedNew | zeroed => exact .inl here
  | _ => exact here.elim

theorem CShmStep.makes (taken : CShmStep object event next) (here : next.pc.Makes key id) :
    object.pc.Makes key id ∨ ∃ size, event = .created key size id := by
  cases taken with
  | created _ _ size _ =>
    obtain ⟨rfl, rfl⟩ := here
    exact .inr ⟨size, rfl⟩
  | attachedNew | zeroed => exact .inl here
  | _ => exact here.elim

theorem ShmPc.Makes.targets {pc : ShmPc} (makes : pc.Makes key id) : pc.Targets key id := by
  cases pc with
  | attaching _ _ exist _ =>
    cases exist
    · exact makes
    · exact makes.elim
  | zeroing => exact makes
  | _ => exact makes.elim

theorem CShmStep.maps (taken : CShmStep object event next) (here : next.Maps id) :
    object.Maps id ∨ event = .attached id := by
  cases taken with
  | attached =>
    rcases here with before | same
    · exact .inl (.inl before)
    · cases same
      exact .inr rfl
  | attachedNew =>
    rcases here with before | same
    · exact .inl (.inl before)
    · exact .inr (congrArg _ same)
  | attachedById =>
    rcases here with same | wrong
    · cases same
      exact .inr rfl
    · exact wrong.elim
  | zeroed => exact .inl here
  | openedNew =>
    rcases here with same | wrong
    · cases same
      exact .inl (.inr rfl)
    · exact wrong.elim
  | opened => exact .inl (.inr (here.resolve_right False.elim))
  | unattached =>
    rcases here with before | wrong
    · exact .inl (.inl before)
    · cases wrong
  | unattachedById | detached | exited => exact here.elim nofun False.elim
  | _ => exact .inl (.inl (here.resolve_right False.elim))

/-- Who lets go of an attachment does not have it afterwards. -/
theorem CShmStep.releases (taken : CShmStep object event next) (released : event.Releases id) : ¬next.Maps id := by
  rcases released with rfl | rfl
  all_goals
    cases taken
    exact fun here => here.elim nofun False.elim

/-- What `InitByKey` has returned is what it had. -/
theorem CShmStep.had {exist : Bool} (taken : CShmStep object (.opened key exist id) next) :
    object.pc.Targets key id ∧ (exist = false → object.pc.Makes key id) ∧ next.pc = .idle := by
  cases taken with
  | openedNew => exact ⟨⟨rfl, rfl⟩, fun _ => ⟨rfl, rfl⟩, rfl⟩
  | opened => exact ⟨⟨rfl, rfl⟩, nofun, rfl⟩

theorem CShmStep.zeroing {offset : ℕ} (taken : CShmStep object (.zeroed id offset) next) :
    ∃ key, object.pc.Makes key id := by
  cases taken with
  | zeroed _ key => exact ⟨key, rfl, rfl⟩

end Steps

/-! ### One segment for a key -/

section Agree

variable {start last next : ShmHost} {labels : List (ℕ × ShmEvent)} {label : ℕ × ShmEvent} {key : ShmKey} {id : ShmId}
  {i j : ℕ}

/-- The system's part of a step. -/
theorem ShmStep.system (taken : ShmStep last label next) :
    last.kernel.Allows label.2 ∧ next.kernel = last.kernel.after label.1 label.2 := by
  cases taken with
  | step i event object own allowed => exact ⟨allowed, rfl⟩

theorem ShmStep.sound (taken : ShmStep last label next) (sound : last.kernel.Sound) : next.kernel.Sound := by
  obtain ⟨allowed, after⟩ := taken.system
  exact after ▸ sound.after allowed

theorem shmMachine_sound (run : shmMachine.Run start labels last) (sound : start.kernel.Sound) : last.kernel.Sound := by
  induction run with
  | nil => exact sound
  | snoc _ taken ih => exact ShmStep.sound taken ih

/-- The object's part of a step; the others stand still. -/
theorem ShmStep.object (taken : ShmStep last label next) :
    CShmStep (last.objects label.1) label.2 (next.objects label.1) ∧
      ∀ j, j ≠ label.1 → next.objects j = last.objects j := by
  cases taken with
  | step i event object own allowed =>
    dsimp only
    rw [Function.update_self]
    exact ⟨own, fun j other => Function.update_of_ne other _ _⟩

theorem ShmStep.targets (taken : ShmStep last label next) (here : (next.objects j).pc.Targets key id) :
    (last.objects j).pc.Targets key id ∨ (∃ size, label = (j, .found key size id)) ∨
      ∃ size, label = (j, .created key size id) := by
  obtain ⟨own, others⟩ := taken.object
  obtain ⟨i, event⟩ := label
  rcases eq_or_ne j i with rfl | other
  · refine (own.targets here).imp_right (Or.imp ?_ ?_)
    all_goals
      rintro ⟨size, rfl⟩
      exact ⟨size, rfl⟩
  · exact .inl (others j other ▸ here)

theorem ShmStep.makes (taken : ShmStep last label next) (here : (next.objects j).pc.Makes key id) :
    (last.objects j).pc.Makes key id ∨ ∃ size, label = (j, .created key size id) := by
  obtain ⟨own, others⟩ := taken.object
  obtain ⟨i, event⟩ := label
  rcases eq_or_ne j i with rfl | other
  · refine (own.makes here).imp_right ?_
    rintro ⟨size, rfl⟩
    exact ⟨size, rfl⟩
  · exact .inl (others j other ▸ here)

/-- A new segment has been created under the key. -/
def createsUnder (key : ShmKey) : ℕ × ShmEvent → Bool
  | (_, .created key' _ _) => key' = key
  | _ => false

/-- A call with the key has been told that the segment is new. -/
def toldNew (key : ShmKey) : ℕ × ShmEvent → Bool
  | (_, .opened key' false _) => key' = key
  | _ => false

/-- The key has been found, created or returned with this segment. -/
inductive Answered (key : ShmKey) (labels : List (ℕ × ShmEvent)) (host : ShmHost) (id : ShmId) : Prop
  | targets (i : ℕ) : (host.objects i).pc.Targets key id → Answered key labels host id
  | opened (i : ℕ) (exist : Bool) : (i, .opened key exist id) ∈ labels → Answered key labels host id
  | created (i size : ℕ) : (i, .created key size id) ∈ labels → Answered key labels host id

/-- What holds while the key is not taken away. -/
structure Registered (key : ShmKey) (labels : List (ℕ × ShmEvent)) (host : ShmHost) : Prop where
  bound : ∀ id, Answered key labels host id → host.kernel.Bound key id
  made : ∀ i id, (host.objects i).pc.Makes key id → ∃ size, (i, .created key size id) ∈ labels
  told : ∀ i id, (i, .opened key false id) ∈ labels → ∃ size, (i, .created key size id) ∈ labels
  one : ∀ i j id id', (host.objects i).pc.Makes key id → (host.objects j).pc.Makes key id' → i = j
  quiet : ∀ i id, (host.objects i).pc.Makes key id → ∀ j id', (j, .opened key false id') ∉ labels
  single : labels.countP (createsUnder key) ≤ 1
  once : labels.countP (toldNew key) ≤ 1

theorem countP_snoc_le_one {p : ℕ × ShmEvent → Bool} (few : labels.countP p ≤ 1)
    (first : p label → ∀ other ∈ labels, p other = false) : (labels ++ [label]).countP p ≤ 1 := by
  rw [List.countP_append, List.countP_singleton]
  split_ifs with new
  · have none : labels.countP p = 0 := List.countP_eq_zero.mpr fun other member => by
      rw [first new other member]
      exact Bool.false_ne_true
    omega
  · exact few

theorem toldNew_iff : toldNew key label ↔ ∃ i id, label = (i, .opened key false id) := by
  obtain ⟨i, event⟩ := label
  cases event with
  | opened key' exist id =>
    cases exist
    · simp [toldNew, eq_comm]
    · simp [toldNew]
  | _ => simp [toldNew]

theorem createsUnder_iff : createsUnder key label ↔ ∃ i size id, label = (i, .created key size id) := by
  obtain ⟨i, event⟩ := label
  cases event with
  | created key' size id => simp [createsUnder, eq_comm]
  | _ => simp [createsUnder]

theorem mem_snoc {entry : ℕ × ShmEvent} : entry ∈ labels ++ [label] ↔ entry ∈ labels ∨ entry = label := by
  rw [List.mem_append, List.mem_singleton]

/-- What is answered after a step was answered before it, or is what `shmget` answers now. -/
theorem ShmStep.answered (taken : ShmStep last label next) (answered : Answered key (labels ++ [label]) next id) :
    Answered key labels last id ∨ (∃ i size, label = (i, .found key size id)) ∨
      ∃ i size, label = (i, .created key size id) := by
  cases answered with
  | targets j here =>
    exact (taken.targets here).imp (.targets j) (Or.imp (fun found => ⟨j, found⟩) fun created => ⟨j, created⟩)
  | opened j exist member =>
    rcases mem_snoc.mp member with before | rfl
    · exact .inl (.opened j exist before)
    · exact .inl (.targets j taken.object.1.had.1)
  | created j size member =>
    rcases mem_snoc.mp member with before | rfl
    · exact .inl (.created j size before)
    · exact .inr (.inr ⟨j, size, rfl⟩)

theorem Registered.bound_step (registered : Registered key labels last) (sound : last.kernel.Sound)
    (named : key ≠ ipcPrivate) (taken : ShmStep last label next) (keeps : ¬label.2.Unbinds key)
    (answered : Answered key (labels ++ [label]) next id) : next.kernel.Bound key id := by
  obtain ⟨allowed, after⟩ := taken.system
  rw [after]
  rcases taken.answered answered with before | ⟨i, size, rfl⟩ | ⟨i, size, rfl⟩
  · exact sound.bound_after allowed (registered.bound id before) keeps
  · have bound : last.kernel.Bound key id := by
      obtain ⟨-, segment, found, has, -⟩ := allowed
      exact ⟨named, segment, found, has⟩
    exact sound.bound_after allowed bound keeps
  · exact Kernel.bound_created named

/-- Nothing is answered where `shmget` creates. -/
theorem Registered.first {size : ℕ} {id' : ShmId} (registered : Registered key labels last)
    (taken : ShmStep last (i, .created key size id) next) : ¬Answered key labels last id' :=
  fun answered => taken.system.1.2.2 id' (registered.bound id' answered)

/-- Who makes a segment after a step made it before, and then none has been told; or it creates it now. -/
theorem Registered.makes_step (registered : Registered key labels last) (taken : ShmStep last label next)
    (here : (next.objects j).pc.Makes key id) :
    (last.objects j).pc.Makes key id ∧ (∀ i size id, label ≠ (i, .created key size id)) ∨
      ∃ size, label = (j, .created key size id) := by
  rcases taken.makes here with before | created
  · refine .inl ⟨before, ?_⟩
    rintro i size id' rfl
    exact registered.first taken (.targets j before.targets)
  · exact .inr created

/-- **A step keeps it**: a maker has created, and nothing is created while the key is bound. -/
theorem Registered.step (registered : Registered key labels last) (sound : last.kernel.Sound)
    (named : key ≠ ipcPrivate) (taken : ShmStep last label next) (keeps : ¬label.2.Unbinds key) :
    Registered key (labels ++ [label]) next where
  bound id answered := registered.bound_step sound named taken keeps answered
  made j id here := by
    rcases registered.makes_step taken here with ⟨before, -⟩ | ⟨size, rfl⟩
    · exact (registered.made j id before).imp fun size member => mem_snoc.mpr (.inl member)
    · exact ⟨size, mem_snoc.mpr (.inr rfl)⟩
  told j id member := by
    rcases mem_snoc.mp member with before | rfl
    · exact (registered.told j id before).imp fun size member => mem_snoc.mpr (.inl member)
    · have made := registered.made j id (taken.object.1.had.2.1 rfl)
      exact made.imp fun size member => mem_snoc.mpr (.inl member)
  one j k id id' here there := by
    rcases registered.makes_step taken here with ⟨before, old⟩ | ⟨size, rfl⟩
    · rcases registered.makes_step taken there with ⟨before', -⟩ | ⟨size, new⟩
      · exact registered.one j k id id' before before'
      · exact absurd new (old k size id')
    · rcases registered.makes_step taken there with ⟨-, old⟩ | ⟨size', new⟩
      · exact absurd rfl (old j size id)
      · exact congrArg Prod.fst new
  quiet j id here k id' member := by
    rcases registered.makes_step taken here with ⟨before, -⟩ | ⟨size, rfl⟩
    · rcases mem_snoc.mp member with earlier | rfl
      · exact registered.quiet j id before k id' earlier
      · obtain ⟨-, makes, idle⟩ := taken.object.1.had
        obtain rfl := registered.one j k id id' before (makes rfl)
        rw [idle] at here
        exact here.elim
    · rcases mem_snoc.mp member with earlier | same
      · exact registered.first taken (.opened k false earlier)
      · cases same
  single := countP_snoc_le_one registered.single fun new other member => by
    obtain ⟨i, size, id, rfl⟩ := createsUnder_iff.mp new
    refine Bool.eq_false_iff.mpr fun again => ?_
    obtain ⟨j, size', id', rfl⟩ := createsUnder_iff.mp again
    exact registered.first taken (.created j size' member)
  once := countP_snoc_le_one registered.once fun new other member => by
    obtain ⟨i, id, rfl⟩ := toldNew_iff.mp new
    refine Bool.eq_false_iff.mpr fun again => ?_
    obtain ⟨j, id', rfl⟩ := toldNew_iff.mp again
    exact registered.quiet i id (taken.object.1.had.2.1 rfl) j id' member

theorem shmMachine_registered (initial : shmMachine.init start) (run : shmMachine.Run start labels last)
    (named : key ≠ ipcPrivate) (keeps : ∀ label ∈ labels, ¬label.2.Unbinds key) : Registered key labels last := by
  obtain ⟨sound, idle⟩ := initial
  induction run with
  | nil =>
    have none : ∀ {i id}, ¬(start.objects i).pc.Makes key id := by
      intro i id here
      rw [idle i] at here
      exact here.elim
    refine ⟨?_, fun i id here => absurd here none, fun _ _ member => absurd member List.not_mem_nil,
      fun i _ id _ here => absurd here none, fun i id here => absurd here none, Nat.zero_le _, Nat.zero_le _⟩
    rintro id (⟨i, here⟩ | ⟨_, _, member⟩ | ⟨_, _, member⟩)
    · rw [idle i] at here
      exact here.elim
    · exact absurd member List.not_mem_nil
    · exact absurd member List.not_mem_nil
  | snoc before taken ih =>
    have registered := ih fun label member => keeps label (mem_snoc.mpr (.inl member))
    exact registered.step (shmMachine_sound before sound) named taken (keeps _ (mem_snoc.mpr (.inr rfl)))

end Agree

/-! ### The second `shmget` -/

section Race

variable {start last next : ShmHost} {labels : List (ℕ × ShmEvent)} {key : ShmKey} {i : ℕ} {size : ℕ}

/-- While object `i` is before its second `shmget`: what has happened since the first one. -/
def Racing (key : ShmKey) (i : ℕ) (labels : List (ℕ × ShmEvent)) (host : ShmHost) : Prop :=
  ∃ before since, labels = before ++ (i, .missed key) :: since ∧ (∀ entry ∈ since, entry.1 ≠ i) ∧
    ∀ id, host.kernel.Bound key id → ∃ j size, (j, .created key size id) ∈ since

theorem CShmStep.creating {object next : ShmObject} {event : ShmEvent} (taken : CShmStep object event next)
    (here : next.pc = .creating key size) : event = .missed key := by
  cases taken with
  | missed =>
    cases here
    rfl
  | _ => cases here

theorem shmMachine_racing (initial : shmMachine.init start) (run : shmMachine.Run start labels last)
    (here : (last.objects i).pc = .creating key size) : Racing key i labels last := by
  obtain ⟨sound, idle⟩ := initial
  induction run with
  | nil =>
    rw [idle i] at here
    cases here
  | @snoc last next labels label earlier taken ih =>
    obtain ⟨own, others⟩ := ShmStep.object taken
    obtain ⟨allowed, after⟩ := ShmStep.system taken
    obtain ⟨j, event⟩ := label
    rcases eq_or_ne i j with rfl | other
    · obtain rfl := own.creating here
      refine ⟨labels, [], rfl, fun _ member => absurd member List.not_mem_nil, fun id bound => ?_⟩
      rw [after] at bound
      rcases (shmMachine_sound earlier sound).bound_of_after bound with old | ⟨size, wrong⟩
      · exact absurd old (allowed.2 id)
      · cases wrong
    · rw [others i other] at here
      obtain ⟨before, since, rfl, apart, bound⟩ := ih here
      refine ⟨before, since ++ [(j, event)], by rw [List.append_assoc, List.cons_append], ?_, fun id now => ?_⟩
      · intro entry member
        rcases mem_snoc.mp member with old | rfl
        · exact apart entry old
        · exact other.symm
      · rw [after] at now
        rcases (shmMachine_sound earlier sound).bound_of_after now with old | ⟨size, rfl⟩
        · obtain ⟨k, size, member⟩ := bound id old
          exact ⟨k, size, mem_snoc.mpr (.inl member)⟩
        · exact ⟨j, size, mem_snoc.mpr (.inr rfl)⟩

theorem CShmStep.losing {object next : ShmObject} (taken : CShmStep object (.lost key) next) :
    ∃ size, object.pc = .creating key size := by
  cases taken with
  | lost _ _ size => exact ⟨size, rfl⟩

end Race

/-- What the calls of `InitByKey` with one key have been told. -/
structure Agreed (key : ShmKey) (labels : List (ℕ × ShmEvent)) : Prop where
  same : ∃ id, ∀ i exist id', (i, .opened key exist id') ∈ labels → id' = id
  maker : ∀ i id, (i, .opened key false id) ∈ labels → ∃ size, (i, .created key size id) ∈ labels
  single : labels.countP (createsUnder key) ≤ 1
  once : labels.countP (toldNew key) ≤ 1

/-- **One segment, one creator.** While a key is not taken away, the calls of `InitByKey` that return 0 have the same
segment, and one at most is told that it is new, the one that created it. And where the second `shmget` of a call finds
a segment after all, another call has created it since the first one. -/
theorem initByKey_agrees (start last : ShmHost) (labels : List (ℕ × ShmEvent)) (key : ShmKey)
    (initial : shmMachine.init start) (run : shmMachine.Run start labels last) (named : key ≠ ipcPrivate) :
    ((∀ label ∈ labels, ¬label.2.Unbinds key) → Agreed key labels) ∧
      ∀ i before after, labels = before ++ (i, .lost key) :: after → ∃ earlier since,
        before = earlier ++ (i, .missed key) :: since ∧ (∀ entry ∈ since, entry.1 ≠ i) ∧
          ∃ j size id, j ≠ i ∧ (j, .created key size id) ∈ since := by
  refine ⟨fun keeps => ?_, ?_⟩
  · have registered := shmMachine_registered initial run named keeps
    have sound := shmMachine_sound run initial.1
    refine ⟨?_, registered.told, registered.single, registered.once⟩
    by_cases bound : ∃ id, last.kernel.Bound key id
    · obtain ⟨id, bound⟩ := bound
      exact ⟨id, fun i exist id' member => sound.one (registered.bound id' (.opened i exist member)) bound⟩
    · exact ⟨0, fun i exist id' member => absurd ⟨id', registered.bound id' (.opened i exist member)⟩ bound⟩
  · rintro i before after rfl
    obtain ⟨middle, next, first, taken, -⟩ := Machine.run_split.mp run
    obtain ⟨size, here⟩ := (ShmStep.object taken).1.losing
    obtain ⟨id, bound⟩ := (ShmStep.system taken).1
    obtain ⟨earlier, since, rfl, apart, created⟩ := shmMachine_racing initial first here
    obtain ⟨j, size, member⟩ := created id bound
    exact ⟨earlier, since, rfl, apart, j, size, id, apart _ member, member⟩

/-- No segments, and new objects. -/
def emptyHost : ShmHost := ⟨fun _ => none, fun _ => ⟨.new, .idle⟩⟩

theorem emptyHost_initial : shmMachine.init emptyHost := by
  refine ⟨⟨?_, ?_⟩, fun _ => rfl⟩
  · rintro key id id' ⟨-, segment, wrong, -⟩
    cases wrong
  · rintro id segment wrong
    cases wrong

/-- Two objects race for a key, and the one that has lost calls again. -/
def raceLabels : List (ℕ × ShmEvent) :=
  [(0, .initByKey 5 1 true), (1, .initByKey 5 1 true), (0, .missed 5), (1, .missed 5), (0, .created 5 1 7),
    (1, .lost 5), (0, .attached 7), (0, .zeroed 7 0), (0, .opened 5 false 7), (1, .initByKey 5 1 false),
    (1, .found 5 1 7), (1, .attached 7), (1, .opened 5 true 7)]

/-- Both have the segment, and no call is under way. -/
structure Raced (host : ShmHost) : Prop where
  run : shmMachine.Run emptyHost raceLabels host
  idle : ∀ j, (host.objects j).pc = .idle
  first : host.objects 0 = ⟨⟨.segment 7, 1, false, 7⟩, .idle⟩
  second : host.objects 1 = ⟨⟨.segment 7, 1, true, 7⟩, .idle⟩
  segment : ∃ segment, host.kernel 7 = some segment ∧ segment.key = 5 ∧ segment.size = 1

theorem run_act {start host : ShmHost} {labels : List (ℕ × ShmEvent)} (run : shmMachine.Run start labels host)
    (i : ℕ) {event : ShmEvent} {object : ShmObject} (own : CShmStep (host.objects i) event object)
    (allowed : host.kernel.Allows event) :
    shmMachine.Run start (labels ++ [(i, event)])
      ⟨host.kernel.after i event, Function.update host.objects i object⟩ :=
  .snoc run (.step _ _ _ _ own allowed)

theorem raced : ∃ host, Raced host := by
  have none : ∀ id, ¬emptyHost.kernel.Bound 5 id := by
    rintro id ⟨-, segment, wrong, -⟩
    cases wrong
  have asked := run_act (.nil emptyHost) 0 (.initByKey _ 5 1 true) trivial
  have both := run_act asked 1 (.initByKey _ 5 1 true) trivial
  have missed := run_act both 0 (.missed _ 5 1) ⟨by decide, none⟩
  have missed' := run_act missed 1 (.missed _ 5 1) ⟨by decide, none⟩
  have created := run_act missed' 0 (.created _ 5 1 7) ⟨rfl, by decide, none⟩
  have lost := run_act created 1 (.lost _ 5 1) ⟨7, by decide, _, rfl, rfl⟩
  have attached := run_act lost 0 (.attachedNew _ 5 1 7) ⟨_, rfl⟩
  have zeroed := run_act attached 0 (.zeroed _ 5 1 7 0 Nat.one_pos) trivial
  have opened := run_act zeroed 0 (.openedNew _ 5 1 7) trivial
  have again := run_act opened 1 (.initByKey _ 5 1 false) trivial
  have found := run_act again 1 (.found _ 5 1 false 7) ⟨by decide, _, rfl, rfl, le_rfl⟩
  have attached' := run_act found 1 (.attached _ 5 1 7) ⟨_, rfl⟩
  have opened' := run_act attached' 1 (.opened _ 5 1 7 _) trivial
  refine ⟨_, opened', fun j => ?_, rfl, rfl, _, rfl, rfl, rfl⟩
  match j with
  | 0 => rfl
  | 1 => rfl
  | j + 2 => rfl

theorem initByKey_agrees_race : Agreed 5 raceLabels := by
  obtain ⟨host, run, -⟩ := raced
  refine (initByKey_agrees emptyHost host raceLabels 5 emptyHost_initial run (by decide)).1 ?_
  simp only [raceLabels, List.forall_mem_cons, ShmEvent.Unbinds]
  simp

/-! ### What is attached -/

section Keep

variable {start last next host : ShmHost} {labels : List (ℕ × ShmEvent)} {label : ℕ × ShmEvent} {id : ShmId}
  {segment : Segment} {i : ℕ}

/-- Every attachment of the objects is one of a segment that is there. -/
def ShmHost.Mapped (host : ShmHost) : Prop :=
  ∀ i id, (host.objects i).Maps id → ∃ segment, host.kernel id = some segment ∧ i ∈ segment.attached

/-- A step of another object, or one that does not let go of the attachment. -/
theorem ShmStep.held (taken : ShmStep last label next) (sound : last.kernel.Sound)
    (here : last.kernel id = some segment) (held : i ∈ segment.attached)
    (stays : label.1 = i → ¬label.2.Releases id) :
    ∃ kept, next.kernel id = some kept ∧ i ∈ kept.attached ∧ kept.size = segment.size ∧
      kept.bytes = write segment.bytes (label.2.writes id) := by
  obtain ⟨allowed, after⟩ := taken.system
  rw [after]
  exact sound.held_after allowed here held fun lets => stays lets.1 lets.2

theorem ShmStep.mapped (taken : ShmStep last label next) (sound : last.kernel.Sound) (mapped : last.Mapped) :
    next.Mapped := by
  intro i id here
  obtain ⟨own, others⟩ := taken.object
  have kept : (last.objects i).Maps id → (label.1 = i → ¬label.2.Releases id) →
      ∃ segment, next.kernel id = some segment ∧ i ∈ segment.attached := by
    intro before stays
    obtain ⟨segment, found, held⟩ := mapped i id before
    obtain ⟨kept, now, still, -⟩ := taken.held sound found held stays
    exact ⟨kept, now, still⟩
  rcases eq_or_ne i label.1 with rfl | other
  · rcases own.maps here with before | attached
    · exact kept before fun _ released => own.releases released here
    · obtain ⟨allowed, after⟩ := taken.system
      rw [attached] at allowed after
      obtain ⟨segment, found⟩ := allowed
      rw [after]
      exact sound.attached_after found
  · rw [others i other] at here
    exact kept here fun same => absurd same.symm other

theorem shmMachine_mapped (reached : shmMachine.Reachable host) : host.kernel.Sound ∧ host.Mapped := by
  have base : ∀ start, shmMachine.init start → start.kernel.Sound ∧ start.Mapped := by
    rintro start ⟨sound, idle⟩
    refine ⟨sound, fun i id here => ?_⟩
    rw [idle i] at here
    exact here.elim nofun False.elim
  refine reached.invariant base ?_
  rintro last label next - ⟨sound, mapped⟩ taken
  exact ⟨ShmStep.sound taken sound, ShmStep.mapped taken sound mapped⟩

/-- The bytes an event stores for the owner of an object. -/
def ShmEvent.stores (id : ShmId) : ShmEvent → List (ℕ × UInt8)
  | .stored id' offset value => if id' = id then [(offset, value)] else []
  | _ => []

/-- Nobody is creating the segment. -/
def ShmHost.Made (host : ShmHost) (id : ShmId) : Prop := ∀ i key, ¬(host.objects i).pc.Makes key id

theorem ShmStep.writes (taken : ShmStep last label next) (made : last.Made id) :
    label.2.writes id = label.2.stores id := by
  have own := taken.object.1
  obtain ⟨i, event⟩ := label
  cases event with
  | zeroed id' offset =>
    have other : id' ≠ id := by
      rintro rfl
      obtain ⟨key, makes⟩ := own.zeroing
      exact made i key makes
    exact if_neg other
  | _ => rfl

/-- Nobody begins to, while it is there. -/
theorem ShmStep.made (taken : ShmStep last label next) (here : last.kernel id = some segment) (made : last.Made id) :
    next.Made id := by
  intro i key makes
  rcases taken.makes makes with before | ⟨size, rfl⟩
  · exact made i key before
  · exact Kernel.not_created taken.system.1 here key size rfl

end Keep

end Yarf.Memory
