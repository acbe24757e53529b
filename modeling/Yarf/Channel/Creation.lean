/-
**Creation and re-attachment** (`CreateUnlockQueue`, `CSendUnlockQueue::Init`, `CRecvUnlockQueue::Init`).

Here a queue lies in a memory of bytes: `UnlockQueueHead` in front, the ring behind it. `CreateUnlockQueue` resets
the head first and has the two `Init`s test the pointer and the size afterwards.

* `queue_reset` — what a reset leaves;
* `createAt_refines` — the bytes and the queue of `UnlockQueue`;
* `reattach_iff` — calls with and without re-attachments between them;
* `create_exact_iff` — which creations are exact.
-/

import Yarf.Channel.Fifo

namespace Yarf.Channel

open Lib

/-! ### The program -/

/-- Where the fields of `UnlockQueueHead` lie; `reserve` is between `seq` and `ctrl_msg`. -/
def readHead (memory : ℕ → UInt8) (header : ℕ) : UnlockQueueHead where
  capacity := UInt32.ofNat (loadNat memory 4 header)
  head := UInt32.ofNat (loadNat memory 4 (header + 4))
  tail := UInt32.ofNat (loadNat memory 4 (header + 8))
  seq := UInt32.ofNat (loadNat memory 4 (header + 12))
  ctrlMsg := Vector.ofFn fun i => memory (header + 64 + i)
  ctrlMsgLen := UInt32.ofNat (loadNat memory 4 (header + 576))

/-- `header_` and `buff_` of a `CSendUnlockQueue` or a `CRecvUnlockQueue`. -/
structure Side where
  header : ℕ
  buff : ℕ
  deriving DecidableEq

/-- The queue a side sees. -/
def Side.queue (side : Side) (memory : ℕ → UInt8) : Queue :=
  ⟨readHead memory side.header, fun i => memory (side.buff + i)⟩

/-- `UnlockQueueHead::IsValid` -/
def isValid (_header : ℕ) (_capacity : UInt32) : Bool := true

/-- `CSendUnlockQueue::Init` and `CRecvUnlockQueue::Init`, the null pointer being 0 -/
def initAt (mem : ℕ) (capacity : UInt32) : Except Err Side :=
  if mem = 0 then .error .kArg
  else if capacity ≤ kUnlockQueueHeadSize + kPackHeadSize then .error .kArg
  else if !isValid mem capacity then .error .kChanHeadInvalid
  else .ok ⟨mem, mem + kUnlockQueueHeadSize.toNat⟩

/-- The bytes a reset writes: `bzero`, then `capacity`. -/
def resetWrites (mem : ℕ) (capacity : UInt32) : List (ℕ × UInt8) :=
  cells (span mem) (List.replicate kUnlockQueueHeadSize.toNat 0)
    ++ cells (span mem) (leBytes 4 (capacity - kUnlockQueueHeadSize).toNat)

/-- `CreateUnlockQueue`: what it returns, with the receiver and the sender, and the bytes it writes. -/
def createAt (mem : ℕ) (capacity : UInt32) (reset : Bool) : Except Err (Side × Side) × List (ℕ × UInt8) :=
  let writes := if reset then resetWrites mem capacity else []
  match initAt mem capacity with
  | .error err => (.error err, writes)
  | .ok recver => match initAt mem capacity with
    | .error err => (.error err, writes)
    | .ok sender => (.ok (recver, sender), writes)

/-! ### Calls and re-attachments -/

/-- A memory and the two objects on it. -/
structure Endpoint where
  memory : ℕ → UInt8
  sides : Side × Side

/-- The side a call is made on. -/
def Endpoint.side (endpoint : Endpoint) : Event → Side
  | .send _ _ => endpoint.sides.2
  | _ => endpoint.sides.1

/-- A call on the queue, or (`none`) the objects are given up and `CreateUnlockQueue` without a reset makes new
ones. -/
inductive EndpointStep (mem : ℕ) (capacity : UInt32) (limit : ℕ) : Endpoint → Option Event → Endpoint → Prop
  | call (endpoint : Endpoint) (event : Event) (memory : ℕ → UInt8) :
      QueueStep limit ((endpoint.side event).queue endpoint.memory) event
        ((endpoint.side event).queue memory) →
      EndpointStep mem capacity limit endpoint (some event) ⟨memory, endpoint.sides⟩
  | reattach (endpoint : Endpoint) (sides : Side × Side) : (createAt mem capacity false).1 = .ok sides →
      EndpointStep mem capacity limit endpoint none
        ⟨write endpoint.memory (createAt mem capacity false).2, sides⟩

def endpointMachine (mem : ℕ) (capacity : UInt32) (limit : ℕ) (start : Endpoint) :
    Machine Endpoint (Option Event) where
  init := (· = start)
  step := EndpointStep mem capacity limit

/-- **What a creation owes.** -/
structure CreateExact (memory : ℕ → UInt8) (mem : ℕ) (capacity : UInt32) (reset : Bool) : Prop where
  returns : (∃ sides, (createAt mem capacity reset).1 = .ok sides) ↔
    mem ≠ 0 ∧ kUnlockQueueHeadSize + kPackHeadSize < capacity
  empties : ∀ sides, (createAt mem capacity reset).1 = .ok sides → reset = true →
    ∀ side ∈ [sides.1, sides.2], Represents (capacity - kUnlockQueueHeadSize)
      (side.queue (write memory (createAt mem capacity reset).2)) Fifo.empty
  keeps : ∀ sides, (createAt mem capacity reset).1 = .ok sides → reset = false →
    write memory (createAt mem capacity reset).2 = memory ∧
      ∀ limit calls last, (endpointMachine mem capacity limit ⟨memory, sides⟩).Run ⟨memory, sides⟩ calls last ↔
        (endpointMachine mem capacity limit ⟨memory, sides⟩).Run ⟨memory, sides⟩
          (calls.filter Option.isSome) last
  inside : ∀ sides, (createAt mem capacity reset).1 = .ok sides →
    ∀ entry ∈ (createAt mem capacity reset).2, mem ≤ entry.1 ∧ entry.1 < mem + capacity.toNat
  untouched : ∀ err, (createAt mem capacity reset).1 = .error err → (createAt mem capacity reset).2 = []

/-! ### The bytes of a reset -/

section Reset

variable {memory : ℕ → UInt8} {mem : ℕ} {capacity : UInt32} {reset : Bool} {sides : Side × Side}

theorem reset_capacity : loadNat (write memory (resetWrites mem capacity)) 4 mem
    = (capacity - kUnlockQueueHeadSize).toNat := by
  have bound := (capacity - kUnlockQueueHeadSize).toNat_lt
  unfold resetWrites
  rw [write_append]
  refine (loadNat_storeNat _ 4 mem _).trans (Nat.mod_eq_of_lt ?_)
  omega

theorem reset_zero {i : ℕ} (behind : 4 ≤ i) (inside : i < 580) :
    write memory (resetWrites mem capacity) (mem + i) = 0 := by
  have length : (List.replicate kUnlockQueueHeadSize.toNat (0 : UInt8)).length = 580 := List.length_replicate
  unfold resetWrites
  rw [write_append, write_cells_of_forall_ne _ _ _ _ fun j below => ?_]
  · have cell := write_cells_apply memory (span mem) (List.replicate kUnlockQueueHeadSize.toNat (0 : UInt8))
      (span_injOn mem _) i (length ▸ inside)
    rw [span_apply] at cell
    rw [cell, List.getElem_replicate]
  · rw [length_leBytes] at below
    rw [span_apply]
    omega

theorem reset_field {offset : ℕ} (behind : 4 ≤ offset) (inside : offset + 4 ≤ 580) :
    UInt32.ofNat (loadNat (write memory (resetWrites mem capacity)) 4 (mem + offset)) = 0 := by
  have zeros : load (write memory (resetWrites mem capacity)) (span (mem + offset)) 4
      = load (fun _ => 0) (span (mem + offset)) 4 := by
    refine load_congr fun i below => ?_
    rw [span_apply, Nat.add_assoc]
    exact reset_zero (by omega) (by omega)
  unfold loadNat
  rw [zeros]
  rfl

/-- **What a reset leaves.** -/
theorem readHead_reset : readHead (write memory (resetWrites mem capacity)) mem = resetHead capacity := by
  have message : (Vector.ofFn fun i : Fin kUnlockQueueMaxCtrlMsg =>
      write memory (resetWrites mem capacity) (mem + 64 + i)) = Vector.replicate _ 0 := by
    refine Vector.ext fun i below => ?_
    have small : i < 512 := below
    rw [Vector.getElem_ofFn, Vector.getElem_replicate, Nat.add_assoc]
    exact reset_zero (by omega : 4 ≤ 64 + i) (by omega : 64 + i < 580)
  unfold readHead resetHead
  rw [reset_capacity, UInt32.ofNat_toNat, reset_field (by omega) (by omega), reset_field (by omega) (by omega),
    reset_field (by omega) (by omega), reset_field (by omega) (by omega), message]

end Reset

/-! ### Creation -/

section Create

variable {memory : ℕ → UInt8} {mem limit : ℕ} {capacity : UInt32} {reset : Bool} {sides : Side × Side}

/-- The tests of the two `Init`s, which are the same. -/
theorem createAt_cases (mem : ℕ) (capacity : UInt32) (reset : Bool) :
    (mem ≠ 0 ∧ kUnlockQueueHeadSize + kPackHeadSize < capacity ∧ createAt mem capacity reset
        = (.ok (⟨mem, mem + 580⟩, ⟨mem, mem + 580⟩), if reset then resetWrites mem capacity else [])) ∨
      ¬(mem ≠ 0 ∧ kUnlockQueueHeadSize + kPackHeadSize < capacity) ∧
        createAt mem capacity reset = (.error .kArg, if reset then resetWrites mem capacity else []) := by
  unfold createAt initAt
  by_cases null : mem = 0
  · refine .inr ⟨fun good => good.1 null, ?_⟩
    rw [if_pos null]
  · rw [if_neg null]
    by_cases small : capacity ≤ kUnlockQueueHeadSize + kPackHeadSize
    · refine .inr ⟨fun good => absurd small (UInt32.not_le.mpr good.2), ?_⟩
      rw [if_pos small]
    · refine .inl ⟨null, UInt32.not_le.mp small, ?_⟩
      rw [if_neg small]
      rfl

/-- A creation that succeeds gives both sides the memory's front. -/
theorem createAt_ok (created : (createAt mem capacity reset).1 = .ok sides) :
    mem ≠ 0 ∧ kUnlockQueueHeadSize + kPackHeadSize < capacity ∧
      sides = (⟨mem, mem + 580⟩, ⟨mem, mem + 580⟩) := by
  rcases createAt_cases mem capacity reset with ⟨some, large, result⟩ | ⟨-, result⟩
  · rw [result] at created
    exact ⟨some, large, (Except.ok.inj created).symm⟩
  · rw [result] at created
    cases created

theorem createAt_writes (mem : ℕ) (capacity : UInt32) (reset : Bool) :
    (createAt mem capacity reset).2 = if reset then resetWrites mem capacity else [] := by
  rcases createAt_cases mem capacity reset with ⟨-, -, result⟩ | ⟨-, result⟩ <;> rw [result]

theorem queue_reset (memory : ℕ → UInt8) (mem : ℕ) (capacity : UInt32) :
    (Side.queue ⟨mem, mem + 580⟩ (write memory (resetWrites mem capacity))).header = resetHead capacity :=
  readHead_reset

/-- **The bytes and the queue.** On a memory that is there, this is `createUnlockQueue` of the queue in it. -/
theorem createAt_refines (some' : mem ≠ 0) : createUnlockQueue
      (some (Side.queue ⟨mem, mem + 580⟩ memory)) capacity reset
    = ((createAt mem capacity reset).1.map fun _ => (),
        some (Side.queue ⟨mem, mem + 580⟩ (write memory (createAt mem capacity reset).2))) := by
  have ring : ∀ i, write memory (resetWrites mem capacity) (mem + 580 + i) = memory (mem + 580 + i) := by
    intro i
    refine write_apply_of_forall_ne _ _ _ fun entry member => ?_
    rcases List.mem_append.mp member with zero | size
    · obtain ⟨j, below, here⟩ := mem_cells zero
      have short : j < 580 := below.trans_eq List.length_replicate
      rw [here, span_apply]
      omega
    · obtain ⟨j, below, here⟩ := mem_cells size
      rw [length_leBytes] at below
      rw [here, span_apply]
      omega
  have after : Side.queue ⟨mem, mem + 580⟩ (write memory (createAt mem capacity reset).2)
      = if reset then ⟨resetHead capacity, (Side.queue ⟨mem, mem + 580⟩ memory).buff⟩
        else Side.queue ⟨mem, mem + 580⟩ memory := by
    rw [createAt_writes]
    cases reset with
    | false => rfl
    | true =>
      unfold Side.queue
      exact congrArg₂ Queue.mk readHead_reset (funext ring)
  rw [after]
  unfold createUnlockQueue initSide
  rcases createAt_cases mem capacity reset with ⟨-, large, result⟩ | ⟨failed, result⟩
  · rw [result]
    cases reset <;> simp [UInt32.not_le.mpr large, Except.map]
  · have small : capacity ≤ kUnlockQueueHeadSize + kPackHeadSize :=
      UInt32.not_lt.mp fun large => failed ⟨some', large⟩
    rw [result]
    cases reset <;> simp [small, Except.map]

/-- A re-attachment changes nothing. -/
theorem reattach_step {start endpoint next : Endpoint} (created : (createAt mem capacity false).1 = .ok sides)
    (made : endpoint.sides = sides) :
    (endpointMachine mem capacity limit start).step endpoint none next ↔ next = endpoint := by
  have silent : (createAt mem capacity false).2 = [] := createAt_writes mem capacity false
  constructor
  · intro taken
    cases taken with
    | reattach sides' created' =>
      rw [created] at created'
      rw [silent, ← Except.ok.inj created', ← made]
      rfl
  · intro same
    have taken := @EndpointStep.reattach mem capacity limit endpoint sides created
    rw [silent, ← made] at taken
    rw [same]
    exact taken

/-- **Calls with and without re-attachments** between them are the same runs. -/
theorem reattach_iff (created : (createAt mem capacity false).1 = .ok sides) (calls : List (Option Event))
    (last : Endpoint) :
    (endpointMachine mem capacity limit ⟨memory, sides⟩).Run ⟨memory, sides⟩ calls last ↔
      (endpointMachine mem capacity limit ⟨memory, sides⟩).Run ⟨memory, sides⟩
        (calls.filter Option.isSome) last := by
  refine @Machine.run_filter_iff _ _ _ (fun endpoint => endpoint.sides = sides) _ ?_ ?_ _ _ _ rfl
  · rintro endpoint call next made taken
    cases taken with
    | call event memory' _ => exact made
    | reattach sides' created' => exact Except.ok.inj (created'.symm.trans created)
  · intro endpoint call next made idle
    cases call with
    | none => exact reattach_step created made
    | some event => cases idle

theorem resetWrites_ne_nil (mem : ℕ) (capacity : UInt32) : resetWrites mem capacity ≠ [] :=
  List.append_ne_nil_of_left_ne_nil (List.cons_ne_nil _ _) _

theorem resetWrites_inside (large : kUnlockQueueHeadSize + kPackHeadSize < capacity) :
    ∀ entry ∈ resetWrites mem capacity, mem ≤ entry.1 ∧ entry.1 < mem + capacity.toNat := by
  intro entry member
  have enough : 628 < capacity.toNat := UInt32.lt_iff_toNat_lt.mp large
  rcases List.mem_append.mp member with zero | size
  · obtain ⟨i, below, here⟩ := mem_cells zero
    have short : i < 580 := below.trans_eq List.length_replicate
    rw [here, span_apply]
    omega
  · obtain ⟨i, below, here⟩ := mem_cells size
    rw [length_leBytes] at below
    rw [here, span_apply]
    omega

/-- The queue of a reset memory is empty. -/
theorem represents_reset (large : kUnlockQueueHeadSize + kPackHeadSize < capacity) :
    Represents (capacity - kUnlockQueueHeadSize)
      (Side.queue ⟨mem, mem + 580⟩ (write memory (resetWrites mem capacity))) Fifo.empty := by
  have enough : 628 < capacity.toNat := UInt32.lt_iff_toNat_lt.mp large
  have ring : 0 < (capacity - kUnlockQueueHeadSize).toNat := by
    rw [UInt32.toNat_sub_of_le _ _ (UInt32.le_iff_toNat_le.mpr (by
      have head : kUnlockQueueHeadSize.toNat = 580 := rfl
      omega))]
    have head : kUnlockQueueHeadSize.toNat = 580 := rfl
    omega
  have head := queue_reset memory mem capacity
  refine ⟨by rw [head]; rfl, ?_, by rw [head]; rfl, 0, ring, ?_, .nil _⟩
  · rw [head]
    exact ring
  · rw [head]
    exact (slot_zero ring).symm

end Create

/-- **Creation.** A creation is exact when there is no reset, or the memory is there and large enough, and only
then. -/
theorem create_exact_iff (memory : ℕ → UInt8) (mem : ℕ) (capacity : UInt32) (reset : Bool) :
    CreateExact memory mem capacity reset ↔
      (reset = true → mem ≠ 0 ∧ kUnlockQueueHeadSize + kPackHeadSize < capacity) := by
  constructor
  · intro exact resets
    by_contra refused
    rcases createAt_cases mem capacity reset with ⟨some, large, -⟩ | ⟨-, result⟩
    · exact refused ⟨some, large⟩
    · have writes := exact.untouched .kArg (by rw [result])
      rw [createAt_writes, if_pos resets] at writes
      exact resetWrites_ne_nil mem capacity writes
  · intro sound
    constructor
    · rcases createAt_cases mem capacity reset with ⟨some, large, result⟩ | ⟨refused, result⟩
      · rw [result]
        exact iff_of_true ⟨_, rfl⟩ ⟨some, large⟩
      · rw [result]
        refine iff_of_false ?_ refused
        rintro ⟨sides, wrong⟩
        cases wrong
    · intro sides created resets side member
      obtain ⟨-, large, same⟩ := createAt_ok created
      have here : side = ⟨mem, mem + 580⟩ := by
        rw [same] at member
        simpa using member
      rw [createAt_writes, if_pos resets, here]
      exact represents_reset large
    · intro sides created keeps
      rw [keeps] at created ⊢
      refine ⟨?_, fun limit calls last => reattach_iff created calls last⟩
      rw [createAt_writes]
      rfl
    · intro sides created
      obtain ⟨-, large, -⟩ := createAt_ok created
      rw [createAt_writes]
      split_ifs
      · exact resetWrites_inside large
      · exact fun entry member => absurd member List.not_mem_nil
    · intro err refused
      rcases createAt_cases mem capacity reset with ⟨-, -, result⟩ | ⟨small, -⟩
      · rw [result] at refused
        cases refused
      · rw [createAt_writes, if_neg fun resets => small (sound resets)]

/-- In ten bytes, the creation fails and has written behind them. -/
theorem create_exact_fails_ten : (createAt 4096 10 true).1 = .error .kArg ∧
    (∃ entry ∈ (createAt 4096 10 true).2, 4096 + 10 ≤ entry.1) ∧ ¬CreateExact (fun _ => 0) 4096 10 true := by
  have refused : (createAt 4096 10 true).1 = .error .kArg := by decide
  have writes : (createAt 4096 10 true).2 = resetWrites 4096 10 := createAt_writes 4096 10 true
  have short : 10 < (List.replicate kUnlockQueueHeadSize.toNat (0 : UInt8)).length := by
    rw [List.length_replicate]
    decide
  have behind : ∃ entry ∈ resetWrites 4096 10, 4096 + 10 ≤ entry.1 :=
    ⟨_, List.mem_append_left _ (mem_cells_of_lt (span 4096) _ 10 short), (span_apply 4096 10).ge⟩
  refine ⟨refused, writes ▸ behind, fun exact => ?_⟩
  rw [exact.untouched _ refused] at writes
  exact resetWrites_ne_nil 4096 10 writes.symm

end Yarf.Channel
