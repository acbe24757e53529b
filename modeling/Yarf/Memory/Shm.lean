/-
**Shared memory segments.**

`CShm` finds or creates a System V segment by its key, attaches one by its id, detaches it and marks it for
deletion. The system calls do what they document (`Kernel.Allows`, `Kernel.after`) and may fail at any time; the
class is the steps its functions take between them (`CShmStep`). Any number of objects, of any number of processes,
take their steps in any order (`shmMachine`).

* `Kernel.Sound.after` — one segment for a key, and a marked segment has no key and is attached;
* `Kernel.Bound.after`, `Kernel.bound_of_after` — a key is bound by `shmget` and unbound by `IPC_RMID`, and by
  nothing else;
* `Kernel.held_after` — what is attached stays, and only stores change its bytes.
-/

import Yarf.Lib.Machine
import Yarf.Lib.Bytes

namespace Yarf.Memory

open Lib

/-! ### The segments -/

abbrev ShmKey := Int32

abbrev ShmId := Int32

/-- `IPC_PRIVATE`. -/
def ipcPrivate : ShmKey := 0

/-- A segment. The key is `IPC_PRIVATE` where it has none; `attached` has the object of each attachment, and
`shm_nattch` is its length. -/
structure Segment where
  key : ShmKey
  size : ℕ
  attached : List ℕ
  marked : Bool
  bytes : ℕ → UInt8

/-- A marked segment is gone with its last attachment. -/
def Segment.kept (segment : Segment) : Option Segment :=
  if segment.marked ∧ segment.attached = [] then none else some segment

abbrev Kernel := ShmId → Option Segment

/-- What `shmget` finds. -/
def Kernel.Bound (kernel : Kernel) (key : ShmKey) (id : ShmId) : Prop :=
  key ≠ ipcPrivate ∧ ∃ segment, kernel id = some segment ∧ segment.key = key

/-! ### The system calls -/

/-- What an object does, with the answer of the system. -/
inductive ShmEvent
  -- `InitByKey` and `InitById` are called
  | initByKey (key : ShmKey) (size : ℕ) (create : Bool)
  | initById (id : ShmId) (size : UInt32)
  -- `shmget`: `ENOENT`, a segment that was there, a new one, `EEXIST`, or another error
  | missed (key : ShmKey)
  | found (key : ShmKey) (size : ℕ) (id : ShmId)
  | created (key : ShmKey) (size : ℕ) (id : ShmId)
  | lost (key : ShmKey)
  | denied
  -- `shmat`: a pointer, or `(void*)-1`
  | attached (id : ShmId)
  | unattached (id : ShmId)
  -- a byte of `bzero`, and a byte the owner of the object stores
  | zeroed (id : ShmId) (offset : ℕ)
  | stored (id : ShmId) (offset : ℕ) (value : UInt8)
  -- `InitByKey` returns 0
  | opened (key : ShmKey) (exist : Bool) (id : ShmId)
  -- `shmdt`, and `IPC_RMID` on an id or on the id of the object
  | detached (id : ShmId)
  | removed (key : ShmKey) (id : ShmId)
  | marked (key : ShmKey) (id : ShmId)
  -- `shmdt` or `shmctl` return -1
  | failed
  -- the process of the object is gone
  | exited
  deriving DecidableEq

/-- When the system may answer so. -/
def Kernel.Allows (kernel : Kernel) : ShmEvent → Prop
  | .missed key => key ≠ ipcPrivate ∧ ∀ id, ¬kernel.Bound key id
  | .found key size id =>
    key ≠ ipcPrivate ∧ ∃ segment, kernel id = some segment ∧ segment.key = key ∧ size ≤ segment.size
  | .created key size id => kernel id = none ∧ 0 < size ∧ ∀ other, ¬kernel.Bound key other
  | .lost key => ∃ id, kernel.Bound key id
  | .attached id => ∃ segment, kernel id = some segment
  | .stored id offset _ => ∃ segment, kernel id = some segment ∧ offset < segment.size
  | .removed key id | .marked key id => ∃ segment, kernel id = some segment ∧ segment.key = key
  | _ => True

/-- What object `i` does to a segment. -/
def ShmEvent.touch (i : ℕ) (event : ShmEvent) (id : ShmId) (segment : Segment) : Segment :=
  match event with
  | .attached id' => if id' = id then { segment with attached := i :: segment.attached } else segment
  | .detached id' => if id' = id then { segment with attached := segment.attached.erase i } else segment
  | .zeroed id' offset =>
    if id' = id then { segment with bytes := Function.update segment.bytes offset 0 } else segment
  | .stored id' offset value =>
    if id' = id then { segment with bytes := Function.update segment.bytes offset value } else segment
  | .removed _ id' | .marked _ id' =>
    if id' = id then { segment with key := ipcPrivate, marked := true } else segment
  | .exited => { segment with attached := segment.attached.filter (· ≠ i) }
  | _ => segment

/-- The segments afterwards. -/
def Kernel.after (kernel : Kernel) (i : ℕ) : ShmEvent → Kernel
  | .created key size id => Function.update kernel id (some ⟨key, size, [], false, fun _ => 0⟩)
  | event => fun id => (kernel id).bind fun segment => (event.touch i id segment).kept

/-! ### The class -/

/-- `content_`: no pointer, `(void*)-1`, or where a segment is attached. -/
inductive Content
  | null
  | bad
  | segment (id : ShmId)
  deriving DecidableEq

structure CShm where
  content : Content
  size : UInt32
  exist : Bool
  shmId : ShmId
  deriving DecidableEq

/-- `CShm::CShm`. -/
def CShm.new : CShm := ⟨.null, 0, false, 0⟩

/-- Where an object is: between calls; in `InitByKey` before the first `shmget`, before the second, before `shmat`,
in `bzero`, before the fields are set; in `InitById`; in `MarkDeleteByKey` before `IPC_RMID`; behind a `bzero` of
`(void*)-1`; or its process is gone. -/
inductive ShmPc
  | idle
  | finding (key : ShmKey) (size : ℕ) (create : Bool)
  | creating (key : ShmKey) (size : ℕ)
  | attaching (key : ShmKey) (size : ℕ) (exist : Bool) (id : ShmId)
  | zeroing (key : ShmKey) (size : ℕ) (id : ShmId) (offset : ℕ)
  | storing (key : ShmKey) (size : ℕ) (id : ShmId) (content : Content)
  | attachingById (id : ShmId) (size : UInt32)
  | removing (id : ShmId)
  | faulted
  | ended

structure ShmObject where
  shm : CShm
  pc : ShmPc

/-- One step of an object. -/
inductive CShmStep : ShmObject → ShmEvent → ShmObject → Prop
  | initByKey (shm : CShm) (key : ShmKey) (size : ℕ) (create : Bool) :
      CShmStep ⟨shm, .idle⟩ (.initByKey key size create) ⟨shm, .finding key size create⟩
  | found (shm : CShm) (key : ShmKey) (size : ℕ) (create : Bool) (id : ShmId) :
      CShmStep ⟨shm, .finding key size create⟩ (.found key size id) ⟨shm, .attaching key size true id⟩
  -- with `IPC_PRIVATE` the first `shmget` creates a segment
  | fresh (shm : CShm) (size : ℕ) (create : Bool) (id : ShmId) :
      CShmStep ⟨shm, .finding ipcPrivate size create⟩ (.created ipcPrivate size id)
        ⟨shm, .attaching ipcPrivate size true id⟩
  | missed (shm : CShm) (key : ShmKey) (size : ℕ) :
      CShmStep ⟨shm, .finding key size true⟩ (.missed key) ⟨shm, .creating key size⟩
  | absent (shm : CShm) (key : ShmKey) (size : ℕ) :
      CShmStep ⟨shm, .finding key size false⟩ (.missed key) ⟨shm, .idle⟩
  | notFound (shm : CShm) (key : ShmKey) (size : ℕ) (create : Bool) :
      CShmStep ⟨shm, .finding key size create⟩ .denied ⟨shm, .idle⟩
  | created (shm : CShm) (key : ShmKey) (size : ℕ) (id : ShmId) :
      CShmStep ⟨shm, .creating key size⟩ (.created key size id) ⟨shm, .attaching key size false id⟩
  | lost (shm : CShm) (key : ShmKey) (size : ℕ) :
      CShmStep ⟨shm, .creating key size⟩ (.lost key) ⟨shm, .idle⟩
  | notCreated (shm : CShm) (key : ShmKey) (size : ℕ) :
      CShmStep ⟨shm, .creating key size⟩ .denied ⟨shm, .idle⟩
  | attached (shm : CShm) (key : ShmKey) (size : ℕ) (id : ShmId) :
      CShmStep ⟨shm, .attaching key size true id⟩ (.attached id) ⟨shm, .storing key size id (.segment id)⟩
  -- `!p` does not hold of `(void*)-1`
  | unattached (shm : CShm) (key : ShmKey) (size : ℕ) (id : ShmId) :
      CShmStep ⟨shm, .attaching key size true id⟩ (.unattached id) ⟨shm, .storing key size id .bad⟩
  | attachedNew (shm : CShm) (key : ShmKey) (size : ℕ) (id : ShmId) :
      CShmStep ⟨shm, .attaching key size false id⟩ (.attached id) ⟨shm, .zeroing key size id 0⟩
  | faulted (shm : CShm) (key : ShmKey) (size : ℕ) (id : ShmId) :
      CShmStep ⟨shm, .attaching key size false id⟩ (.unattached id) ⟨shm, .faulted⟩
  | zeroed (shm : CShm) (key : ShmKey) (size : ℕ) (id : ShmId) (offset : ℕ) : offset < size →
      CShmStep ⟨shm, .zeroing key size id offset⟩ (.zeroed id offset) ⟨shm, .zeroing key size id (offset + 1)⟩
  | openedNew (shm : CShm) (key : ShmKey) (size : ℕ) (id : ShmId) :
      CShmStep ⟨shm, .zeroing key size id size⟩ (.opened key false id)
        ⟨⟨.segment id, UInt32.ofNat size, false, id⟩, .idle⟩
  | opened (shm : CShm) (key : ShmKey) (size : ℕ) (id : ShmId) (content : Content) :
      CShmStep ⟨shm, .storing key size id content⟩ (.opened key true id)
        ⟨⟨content, UInt32.ofNat size, true, id⟩, .idle⟩
  | initById (shm : CShm) (id : ShmId) (size : UInt32) :
      CShmStep ⟨shm, .idle⟩ (.initById id size) ⟨shm, .attachingById id size⟩
  | attachedById (shm : CShm) (id : ShmId) (size : UInt32) :
      CShmStep ⟨shm, .attachingById id size⟩ (.attached id) ⟨⟨.segment id, size, true, id⟩, .idle⟩
  | unattachedById (shm : CShm) (id : ShmId) (size : UInt32) :
      CShmStep ⟨shm, .attachingById id size⟩ (.unattached id) ⟨⟨.bad, size, true, id⟩, .idle⟩
  | detached (shm : CShm) (id : ShmId) : shm.content = .segment id →
      CShmStep ⟨shm, .idle⟩ (.detached id) ⟨.new, .idle⟩
  -- `shmdt` of no attachment, `IPC_RMID` refused
  | failed (shm : CShm) : CShmStep ⟨shm, .idle⟩ .failed ⟨shm, .idle⟩
  -- `MarkDeleteByKey` is a `shmget` of size 0 and `IPC_RMID`
  | sought (shm : CShm) (key : ShmKey) (id : ShmId) :
      CShmStep ⟨shm, .idle⟩ (.found key 0 id) ⟨shm, .removing id⟩
  | notSought (shm : CShm) (key : ShmKey) : CShmStep ⟨shm, .idle⟩ (.missed key) ⟨shm, .idle⟩
  | removedByKey (shm : CShm) (key : ShmKey) (id : ShmId) :
      CShmStep ⟨shm, .removing id⟩ (.removed key id) ⟨shm, .idle⟩
  | notRemoved (shm : CShm) (id : ShmId) : CShmStep ⟨shm, .removing id⟩ .failed ⟨shm, .idle⟩
  -- `MarkDeleteById` and `MarkDelete`
  | removed (shm : CShm) (key : ShmKey) (id : ShmId) :
      CShmStep ⟨shm, .idle⟩ (.removed key id) ⟨shm, .idle⟩
  | marked (shm : CShm) (key : ShmKey) : CShmStep ⟨shm, .idle⟩ (.marked key shm.shmId) ⟨shm, .idle⟩
  | stored (shm : CShm) (id : ShmId) (offset : ℕ) (value : UInt8) : shm.content = .segment id →
      CShmStep ⟨shm, .idle⟩ (.stored id offset value) ⟨shm, .idle⟩
  | exited (object : ShmObject) : CShmStep object .exited ⟨.new, .ended⟩

/-- The segments and all objects. -/
structure ShmHost where
  kernel : Kernel
  objects : ℕ → ShmObject

/-- A step of one object. -/
inductive ShmStep : ShmHost → ℕ × ShmEvent → ShmHost → Prop
  | step (host : ShmHost) (i : ℕ) (event : ShmEvent) (object : ShmObject) :
      CShmStep (host.objects i) event object → host.kernel.Allows event →
      ShmStep host (i, event) ⟨host.kernel.after i event, Function.update host.objects i object⟩

/-- One segment for a key; a marked segment has lost its key and is attached. -/
structure Kernel.Sound (kernel : Kernel) : Prop where
  one : ∀ {key : ShmKey} {id id' : ShmId}, kernel.Bound key id → kernel.Bound key id' → id = id'
  marked : ∀ {id : ShmId} {segment : Segment}, kernel id = some segment → segment.marked →
    segment.key = ipcPrivate ∧ segment.attached ≠ []

/-- New objects, and any segments. -/
def shmMachine : Machine ShmHost (ℕ × ShmEvent) where
  init host := host.kernel.Sound ∧ ∀ i, host.objects i = ⟨.new, .idle⟩
  step := ShmStep

/-! ### What a step does to the segments -/

section Segments

variable {kernel : Kernel} {event : ShmEvent} {key : ShmKey} {id : ShmId} {i j : ℕ} {segment next : Segment}

/-- The segment whose key an event takes away. -/
def ShmEvent.Unbinds (key : ShmKey) : ShmEvent → Prop
  | .removed key' _ | .marked key' _ => key' = key
  | _ => False

/-- The bytes an event stores in a segment. -/
def ShmEvent.writes (id : ShmId) : ShmEvent → List (ℕ × UInt8)
  | .zeroed id' offset => if id' = id then [(offset, 0)] else []
  | .stored id' offset value => if id' = id then [(offset, value)] else []
  | _ => []

/-- What ends an attachment of the object. -/
def ShmEvent.Releases (id : ShmId) (event : ShmEvent) : Prop := event = .detached id ∨ event = .exited

@[simp]
theorem ShmEvent.touch_size : (event.touch i id segment).size = segment.size := by
  cases event <;> dsimp only [touch] <;> split_ifs <;> rfl

@[simp]
theorem ShmEvent.touch_bytes : (event.touch i id segment).bytes = write segment.bytes (event.writes id) := by
  cases event with
  | zeroed | stored =>
    dsimp only [touch, writes]
    split_ifs <;> rfl
  | attached | detached | removed | marked =>
    dsimp only [touch, writes]
    split_ifs <;> rfl
  | _ => rfl

/-- An attachment stays where its object does not end it. -/
theorem ShmEvent.mem_touch (stays : ¬(j = i ∧ event.Releases id)) (here : i ∈ segment.attached) :
    i ∈ (event.touch j id segment).attached := by
  cases event with
  | attached =>
    dsimp only [touch]
    split_ifs
    · exact List.mem_cons_of_mem _ here
    · exact here
  | detached id' =>
    dsimp only [touch]
    split_ifs with same
    · have other : i ≠ j := fun same' => stays ⟨same'.symm, .inl (congrArg _ same)⟩
      exact (List.mem_erase_of_ne other).mpr here
    · exact here
  | exited =>
    have other : i ≠ j := fun same => stays ⟨same.symm, .inr rfl⟩
    exact List.mem_filter.mpr ⟨here, decide_eq_true other⟩
  | zeroed | stored | removed | marked =>
    dsimp only [touch]
    split_ifs <;> exact here
  | _ => exact here

/-- The key goes with the mark. -/
theorem ShmEvent.touch_marked (sound : segment.marked → segment.key = ipcPrivate)
    (marked : (event.touch i id segment).marked) : (event.touch i id segment).key = ipcPrivate := by
  revert marked
  cases event with
  | attached | detached | zeroed | stored =>
    dsimp only [touch]
    split_ifs <;> exact sound
  | removed | marked =>
    dsimp only [touch]
    split_ifs
    · exact fun _ => rfl
    · exact sound
  | _ => exact sound

/-- A segment has the key it had, or none. -/
theorem ShmEvent.touch_key (bound : (event.touch i id segment).key ≠ ipcPrivate) :
    (event.touch i id segment).key = segment.key := by
  revert bound
  cases event with
  | attached | detached | zeroed | stored =>
    dsimp only [touch]
    split_ifs <;> exact fun _ => rfl
  | removed | marked =>
    dsimp only [touch]
    split_ifs
    · exact fun wrong => absurd rfl wrong
    · exact fun _ => rfl
  | _ => exact fun _ => rfl

/-- It keeps the key where the event takes none away. -/
theorem ShmEvent.touch_bound (allowed : kernel.Allows event) (here : kernel id = some segment)
    (keeps : ¬event.Unbinds segment.key) :
    (event.touch i id segment).key = segment.key ∧ (event.touch i id segment).marked = segment.marked := by
  cases event with
  | attached | detached | zeroed | stored =>
    dsimp only [touch]
    split_ifs <;> exact ⟨rfl, rfl⟩
  | removed key id' | marked key id' =>
    dsimp only [touch]
    split_ifs with same
    · obtain ⟨other, found, named⟩ := allowed
      rw [same, here, Option.some_inj] at found
      exact absurd (found ▸ named.symm) keeps
    · exact ⟨rfl, rfl⟩
  | _ => exact ⟨rfl, rfl⟩

theorem Segment.kept_eq_some :
    segment.kept = some next ↔ segment = next ∧ ¬(segment.marked ∧ segment.attached = []) := by
  unfold kept
  split_ifs with gone
  · exact ⟨nofun, fun here => absurd gone here.2⟩
  · rw [Option.some_inj]
    exact ⟨fun same => ⟨same, gone⟩, fun here => here.1⟩

theorem Kernel.Sound.kept (sound : kernel.Sound) (here : kernel id = some segment) : segment.kept = some segment :=
  Segment.kept_eq_some.mpr ⟨rfl, fun gone => (sound.marked here gone.1).2 gone.2⟩

/-- **The segments after an event**: a new one, and what is kept of the others. -/
theorem Kernel.Sound.after_eq_some (sound : kernel.Sound) :
    kernel.after i event id = some next ↔
      (∃ key size, event = .created key size id ∧ next = ⟨key, size, [], false, fun _ => 0⟩) ∨
        (∀ key size, event ≠ .created key size id) ∧
          ∃ segment, kernel id = some segment ∧ (event.touch i id segment).kept = some next := by
  cases event with
  | created key size id' =>
    dsimp only [Kernel.after]
    by_cases same : id' = id
    · subst same
      rw [Function.update_self, Option.some_inj]
      constructor
      · rintro rfl
        exact .inl ⟨key, size, rfl, rfl⟩
      · rintro (⟨key', size', same, rfl⟩ | ⟨other, -⟩)
        · cases same
          rfl
        · exact absurd rfl (other key size)
    · rw [Function.update_of_ne (Ne.symm same)]
      have other : ∀ key' size', ShmEvent.created key size id' ≠ .created key' size' id := by
        rintro key' size' wrong
        cases wrong
        exact same rfl
      constructor
      · exact fun here => .inr ⟨other, next, here, sound.kept here⟩
      · rintro (⟨key', size', wrong, -⟩ | ⟨-, segment, here, kept⟩)
        · exact absurd wrong (other key' size')
        · rwa [here, ← sound.kept here]
  | _ =>
    refine Iff.trans Option.bind_eq_some_iff ?_
    exact ⟨fun here => .inr ⟨nofun, here⟩, fun here => (here.resolve_left nofun).2⟩

/-- What an event leaves of a segment. -/
theorem Kernel.Sound.of_after (sound : kernel.Sound) (old : ∀ key size, event ≠ .created key size id)
    (here : kernel.after i event id = some next) :
    ∃ segment, kernel id = some segment ∧ event.touch i id segment = next ∧ ¬(next.marked ∧ next.attached = []) := by
  obtain ⟨key, size, wrong, -⟩ | ⟨-, segment, found, kept⟩ := sound.after_eq_some.mp here
  · exact absurd wrong (old key size)
  · obtain ⟨rfl, stays⟩ := Segment.kept_eq_some.mp kept
    exact ⟨segment, found, rfl, stays⟩

/-- A new segment is not one that was there. -/
theorem Kernel.not_created (allowed : kernel.Allows event) (here : kernel id = some segment) (key : ShmKey)
    (size : ℕ) : event ≠ .created key size id := by
  rintro rfl
  cases here.symm.trans allowed.1

/-- **What is attached stays**, and the event's bytes are stored in it. -/
theorem Kernel.Sound.held_after (sound : kernel.Sound) (allowed : kernel.Allows event)
    (here : kernel id = some segment) (held : i ∈ segment.attached) (stays : ¬(j = i ∧ event.Releases id)) :
    ∃ next, kernel.after j event id = some next ∧ i ∈ next.attached ∧ next.size = segment.size ∧
      next.bytes = write segment.bytes (event.writes id) := by
  have kept : (event.touch j id segment).kept = some (event.touch j id segment) :=
    Segment.kept_eq_some.mpr ⟨rfl, fun gone => List.not_mem_nil (gone.2 ▸ ShmEvent.mem_touch stays held)⟩
  exact ⟨_, sound.after_eq_some.mpr (.inr ⟨not_created allowed here, segment, here, kept⟩),
    ShmEvent.mem_touch stays held, ShmEvent.touch_size, ShmEvent.touch_bytes⟩

/-- What is attached now has the attachment. -/
theorem Kernel.Sound.attached_after (sound : kernel.Sound) (here : kernel id = some segment) :
    ∃ next, kernel.after i (.attached id) id = some next ∧ i ∈ next.attached := by
  have touched : ShmEvent.touch i (.attached id) id segment = { segment with attached := i :: segment.attached } :=
    if_pos rfl
  refine ⟨_, sound.after_eq_some.mpr (.inr ⟨nofun, segment, here, Segment.kept_eq_some.mpr ⟨rfl, ?_⟩⟩), ?_⟩
  · rw [touched]
    exact fun gone => List.cons_ne_nil _ _ gone.2
  · rw [touched]
    exact List.mem_cons_self

/-- A key is bound where it was, or where `shmget` creates. -/
theorem Kernel.Sound.bound_of_after (sound : kernel.Sound) (bound : (kernel.after i event).Bound key id) :
    kernel.Bound key id ∨ ∃ size, event = .created key size id := by
  obtain ⟨named, next, here, rfl⟩ := bound
  obtain ⟨key, size, rfl, rfl⟩ | ⟨-, segment, found, kept⟩ := sound.after_eq_some.mp here
  · exact .inr ⟨size, rfl⟩
  · obtain ⟨rfl, -⟩ := Segment.kept_eq_some.mp kept
    exact .inl ⟨named, segment, found, (ShmEvent.touch_key named).symm⟩

/-- **A key stays bound** where it is not taken away. -/
theorem Kernel.Sound.bound_after (sound : kernel.Sound) (allowed : kernel.Allows event) (bound : kernel.Bound key id)
    (keeps : ¬event.Unbinds key) : (kernel.after i event).Bound key id := by
  obtain ⟨named, segment, here, rfl⟩ := bound
  obtain ⟨sameKey, sameMark⟩ := ShmEvent.touch_bound (i := i) allowed here keeps
  have unmarked : segment.marked ≠ true := fun marked => named (sound.marked here marked).1
  have kept : (event.touch i id segment).kept = some (event.touch i id segment) :=
    Segment.kept_eq_some.mpr ⟨rfl, fun gone => unmarked (sameMark ▸ gone.1)⟩
  exact ⟨named, _, sound.after_eq_some.mpr (.inr ⟨not_created allowed here, segment, here, kept⟩), sameKey⟩

/-- A segment that is created has its key, unless that is `IPC_PRIVATE`. -/
theorem Kernel.bound_created {size : ℕ} (named : key ≠ ipcPrivate) :
    (kernel.after i (.created key size id)).Bound key id :=
  ⟨named, _, Function.update_self _ _ _, rfl⟩

theorem Kernel.Sound.after (sound : kernel.Sound) (allowed : kernel.Allows event) : (kernel.after i event).Sound := by
  constructor
  · intro key id id' first second
    rcases sound.bound_of_after first with before | ⟨size, rfl⟩
    · rcases sound.bound_of_after second with before' | ⟨size, rfl⟩
      · exact sound.one before before'
      · exact absurd before (allowed.2.2 id)
    · rcases sound.bound_of_after second with before' | ⟨size', same⟩
      · exact absurd before' (allowed.2.2 id')
      · cases same
        rfl
  · intro id next here marked
    obtain ⟨key, size, rfl, rfl⟩ | ⟨-, segment, found, kept⟩ := sound.after_eq_some.mp here
    · cases marked
    · obtain ⟨rfl, stays⟩ := Segment.kept_eq_some.mp kept
      exact ⟨ShmEvent.touch_marked (fun before => (sound.marked found before).1) marked,
        fun empty => stays ⟨marked, empty⟩⟩

end Segments

end Yarf.Memory
