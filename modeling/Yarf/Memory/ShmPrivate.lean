/-
**Segments without a key.**

`InitByKey` with `IPC_PRIVATE` creates a segment in its first `shmget`. As long as the objects these segments were
given to keep them attached, and nobody else removes them (`PrivateKept`), no two of them are the same
(`private_apart`): a segment is in place from its creation on (`PrivateInv.step`), so its id is not given again.
-/

import Yarf.Memory.ShmRuns

namespace Yarf.Memory

open Lib

/-- The object was given this segment, which has no key. -/
def HandedOut (labels : List (ℕ × ShmEvent)) (i : ℕ) (id : ShmId) : Prop :=
  ∃ exist, (i, .opened ipcPrivate exist id) ∈ labels

def ShmEvent.Removes (id : ShmId) : ShmEvent → Prop
  | .removed _ id' | .marked _ id' => id' = id
  | _ => False

/-- The objects that were given segments without a key attached them and do not let go of them, and nobody else
removes these segments. -/
structure PrivateKept (labels : List (ℕ × ShmEvent)) : Prop where
  held : ∀ i id, HandedOut labels i id → ∀ event, (i, event) ∈ labels → ¬event.Releases id ∧ event ≠ .unattached id
  removed : ∀ before i event after id, labels = before ++ (i, event) :: after → event.Removes id →
    (∃ j, HandedOut labels j id) → HandedOut before i id

/-- A segment that was given to an object is there since its creation, with one owner. -/
structure PrivateInv (id : ShmId) (labels : List (ℕ × ShmEvent)) (host : ShmHost) : Prop where
  alive : ∀ i size, (i, .created ipcPrivate size id) ∈ labels → ∃ segment, host.kernel id = some segment ∧
    (segment.marked → ∃ j, HandedOut labels j id ∧ j ∈ segment.attached)
  owned : ∀ i, (host.objects i).pc.Targets ipcPrivate id → ∃ size, (i, .created ipcPrivate size id) ∈ labels
  content : ∀ i size content, (host.objects i).pc = .storing ipcPrivate size id content →
    content = .segment id ∨ (i, .unattached id) ∈ labels
  given : ∀ i, HandedOut labels i id → (∃ size, (i, .created ipcPrivate size id) ∈ labels) ∧
    ∀ segment, host.kernel id = some segment → i ∈ segment.attached
  one : ∀ i j, (host.objects i).pc.Targets ipcPrivate id → (host.objects j).pc.Targets ipcPrivate id → i = j
  quiet : ∀ i, (host.objects i).pc.Targets ipcPrivate id → ∀ j, ¬HandedOut labels j id
  apart : labels.Pairwise fun first second => ¬((∃ exist, first.2 = .opened ipcPrivate exist id) ∧
    ∃ exist, second.2 = .opened ipcPrivate exist id)

section Step

variable {start last next host : ShmHost} {labels rest : List (ℕ × ShmEvent)} {label : ℕ × ShmEvent} {id : ShmId} {i j : ℕ}

theorem handedOut_snoc :
    HandedOut (labels ++ [label]) i id ↔ HandedOut labels i id ∨ ∃ exist, label = (i, .opened ipcPrivate exist id) := by
  unfold HandedOut
  constructor
  · rintro ⟨exist, member⟩
    exact (mem_snoc.mp member).imp (fun before => ⟨exist, before⟩) fun same => ⟨exist, same.symm⟩
  · rintro (⟨exist, before⟩ | ⟨exist, rfl⟩)
    · exact ⟨exist, mem_snoc.mpr (.inl before)⟩
    · exact ⟨exist, mem_snoc.mpr (.inr rfl)⟩

/-- Nothing has been done with a segment that is created. -/
theorem PrivateInv.first (inv : PrivateInv id labels last) (here : last.kernel id = none) :
    ¬(last.objects i).pc.Targets ipcPrivate id ∧ ¬HandedOut labels i id := by
  have none : ∀ i size, (i, .created ipcPrivate size id) ∉ labels := by
    intro i size member
    obtain ⟨segment, there, -⟩ := inv.alive i size member
    cases here.symm.trans there
  refine ⟨fun targets => ?_, fun given => ?_⟩
  · obtain ⟨size, member⟩ := inv.owned i targets
    exact none i size member
  · obtain ⟨⟨size, member⟩, -⟩ := inv.given i given
    exact none i size member

/-- Who has a segment without a key after a step had it before, or creates it now. -/
theorem ShmStep.targets_private (taken : ShmStep last label next)
    (here : (next.objects j).pc.Targets ipcPrivate id) :
    (last.objects j).pc.Targets ipcPrivate id ∨
      (∃ size, label = (j, .created ipcPrivate size id)) ∧ last.kernel id = none := by
  rcases taken.targets here with before | ⟨size, rfl⟩ | ⟨size, rfl⟩
  · exact .inl before
  · exact absurd rfl taken.system.1.1
  · exact .inr ⟨⟨size, rfl⟩, taken.system.1.1⟩

theorem CShmStep.storing {object next : ShmObject} {event : ShmEvent} {key : ShmKey} {size : ℕ} {content : Content}
    (taken : CShmStep object event next) (here : next.pc = .storing key size id content) :
    content = .segment id ∨ event = .unattached id := by
  cases taken with
  | attached =>
    cases here
    exact .inl rfl
  | unattached =>
    cases here
    exact .inr rfl
  | _ => cases here

/-- What the object has when `InitByKey` returns. -/
theorem CShmStep.returned {object next : ShmObject} {key : ShmKey} {exist : Bool}
    (taken : CShmStep object (.opened key exist id) next) :
    next.shm.content = .segment id ∨
      ∃ size content, object.pc = .storing key size id content ∧ next.shm.content = content := by
  cases taken with
  | openedNew => exact .inl rfl
  | opened _ _ size _ content => exact .inr ⟨size, content, rfl, rfl⟩

theorem ShmEvent.touch_unremoved {event : ShmEvent} (keeps : ¬event.Removes id) (segment : Segment) :
    (event.touch i id segment).marked = segment.marked := by
  cases event with
  | attached | detached | zeroed | stored =>
    dsimp only [touch]
    split_ifs <;> rfl
  | removed _ id' | marked _ id' => exact congrArg Segment.marked (if_neg keeps)
  | _ => rfl

/-- A segment that is given to an object stays in place: it is marked by an object that has attached it, if at all. -/
theorem PrivateInv.alive_step {segment : Segment} (inv : PrivateInv id labels last)
    (kept : PrivateKept (labels ++ label :: rest)) (somebody : ∃ j, HandedOut (labels ++ label :: rest) j id)
    (sound : last.kernel.Sound) (taken : ShmStep last label next) (here : last.kernel id = some segment)
    (safe : segment.marked → ∃ j, HandedOut labels j id ∧ j ∈ segment.attached) :
    ∃ after, next.kernel id = some after ∧ (after.marked → ∃ j, HandedOut labels j id ∧ j ∈ after.attached) := by
  by_cases holder : ∃ j, HandedOut labels j id ∧ j ∈ segment.attached
  · obtain ⟨j, ⟨exist, member⟩, held⟩ := holder
    have lets : label.1 = j → ¬label.2.Releases id := by
      rintro rfl
      have given : HandedOut (labels ++ label :: rest) label.1 id := ⟨exist, List.mem_append_left _ member⟩
      exact (kept.held label.1 id given label.2 (List.mem_append_right _ List.mem_cons_self)).1
    obtain ⟨after, now, still, -⟩ := taken.held sound here held lets
    exact ⟨after, now, fun _ => ⟨j, ⟨exist, member⟩, still⟩⟩
  · have unmarked : segment.marked ≠ true := fun marked => holder (safe marked)
    have keeps : ¬label.2.Removes id := by
      intro removes
      have given := kept.removed labels label.1 label.2 rest id rfl removes somebody
      exact holder ⟨label.1, given, (inv.given label.1 given).2 segment here⟩
    obtain ⟨allowed, after⟩ := taken.system
    have same := ShmEvent.touch_unremoved (i := label.1) keeps segment
    refine ⟨label.2.touch label.1 id segment, ?_, fun marked => absurd (same ▸ marked) unmarked⟩
    rw [after]
    refine sound.after_eq_some.mpr (.inr ⟨Kernel.not_created allowed here, segment, here, ?_⟩)
    exact Segment.kept_eq_some.mpr ⟨rfl, fun gone => unmarked (same ▸ gone.1)⟩

/-- An object that is given the segment now has attached it. -/
theorem PrivateInv.given_now {exist : Bool} (inv : PrivateInv id labels last)
    (kept : PrivateKept (labels ++ (i, .opened ipcPrivate exist id) :: rest))
    (taken : ShmStep last (i, .opened ipcPrivate exist id) next) : (next.objects i).Maps id := by
  rcases taken.object.1.returned with here | ⟨size, content, storing, here⟩
  · exact .inl here
  · rcases inv.content i size content storing with rfl | member
    · exact .inl here
    · have given : HandedOut (labels ++ (i, .opened ipcPrivate exist id) :: rest) i id :=
        ⟨exist, List.mem_append_right _ List.mem_cons_self⟩
      exact absurd rfl (kept.held i id given _ (List.mem_append_left _ member)).2

/-- **A step keeps it**: a segment is created once, since it is there afterwards. -/
theorem PrivateInv.step (inv : PrivateInv id labels last) (kept : PrivateKept (labels ++ label :: rest))
    (somebody : ∃ j, HandedOut (labels ++ label :: rest) j id) (sound : last.kernel.Sound)
    (taken : ShmStep last label next) (mapped : next.Mapped) : PrivateInv id (labels ++ [label]) next where
  alive i size member := by
    rcases mem_snoc.mp member with before | rfl
    · obtain ⟨segment, here, safe⟩ := inv.alive i size before
      obtain ⟨after, now, still⟩ := inv.alive_step kept somebody sound taken here safe
      exact ⟨after, now, fun marked => (still marked).imp fun j both => ⟨handedOut_snoc.mpr (.inl both.1), both.2⟩⟩
    · rw [taken.system.2]
      exact ⟨_, Function.update_self _ _ _, nofun⟩
  owned i here := by
    rcases taken.targets_private here with before | ⟨⟨size, rfl⟩, -⟩
    · exact (inv.owned i before).imp fun size member => mem_snoc.mpr (.inl member)
    · exact ⟨size, mem_snoc.mpr (.inr rfl)⟩
  content i size content here := by
    obtain ⟨own, others⟩ := taken.object
    rcases eq_or_ne i label.1 with rfl | other
    · exact (own.storing here).imp_right fun event => mem_snoc.mpr (.inr (Prod.ext rfl event.symm))
    · rw [others i other] at here
      exact (inv.content i size content here).imp_right fun member => mem_snoc.mpr (.inl member)
  given i handed := by
    rcases handedOut_snoc.mp handed with before | ⟨exist, rfl⟩
    · obtain ⟨⟨size, member⟩, attached⟩ := inv.given i before
      refine ⟨⟨size, mem_snoc.mpr (.inl member)⟩, fun after now => ?_⟩
      obtain ⟨segment, here, -⟩ := inv.alive i size member
      have lets : label.1 = i → ¬label.2.Releases id := by
        rintro rfl
        have given : HandedOut (labels ++ label :: rest) label.1 id :=
          before.imp fun exist member => List.mem_append_left _ member
        exact (kept.held label.1 id given label.2 (List.mem_append_right _ List.mem_cons_self)).1
      obtain ⟨after', now', still, -⟩ := taken.held sound here (attached segment here) lets
      obtain rfl := Option.some_inj.mp (now'.symm.trans now)
      exact still
    · obtain ⟨size, member⟩ := inv.owned i taken.object.1.had.1
      refine ⟨⟨size, mem_snoc.mpr (.inl member)⟩, fun after now => ?_⟩
      obtain ⟨segment, here, held⟩ := mapped i id (inv.given_now kept taken)
      obtain rfl := Option.some_inj.mp (here.symm.trans now)
      exact held
  one i j here there := by
    rcases taken.targets_private here with before | ⟨⟨size, rfl⟩, new⟩
    · rcases taken.targets_private there with before' | ⟨-, new⟩
      · exact inv.one i j before before'
      · exact absurd before (inv.first new).1
    · rcases taken.targets_private there with before' | ⟨⟨size', same⟩, -⟩
      · exact absurd before' (inv.first new).1
      · exact congrArg Prod.fst same
  quiet i here j handed := by
    rcases taken.targets_private here with before | ⟨⟨size, rfl⟩, new⟩
    · rcases handedOut_snoc.mp handed with earlier | ⟨exist, rfl⟩
      · exact inv.quiet i before j earlier
      · obtain ⟨targets, -, idle⟩ := taken.object.1.had
        obtain rfl := inv.one i j before targets
        rw [idle] at here
        exact here.elim
    · rcases handedOut_snoc.mp handed with earlier | ⟨exist, same⟩
      · exact (inv.first new).2 earlier
      · cases same
  apart := by
    refine List.pairwise_append.mpr ⟨inv.apart, List.pairwise_singleton _ _, ?_⟩
    rintro ⟨j, event⟩ member second single ⟨⟨exist, rfl⟩, exist', now⟩
    obtain rfl := List.mem_singleton.mp single
    obtain ⟨i, event⟩ := second
    obtain rfl := now
    exact inv.quiet i taken.object.1.had.1 j ⟨exist, member⟩

theorem shmMachine_private (initial : shmMachine.init start) (run : shmMachine.Run start labels last)
    (kept : PrivateKept (labels ++ rest)) (somebody : ∃ j, HandedOut (labels ++ rest) j id) :
    PrivateInv id labels last := by
  obtain ⟨sound, idle⟩ := initial
  induction run generalizing rest with
  | nil =>
    have none : ∀ {i key}, ¬(start.objects i).pc.Targets key id := by
      intro i key here
      rw [idle i] at here
      exact here.elim
    refine ⟨fun _ _ member => absurd member List.not_mem_nil, fun i here => absurd here none, fun i size content here => ?_,
      ?_, fun i _ here => absurd here none, fun i here => absurd here none, .nil⟩
    · rw [idle i] at here
      cases here
    · rintro i ⟨exist, member⟩
      exact absurd member List.not_mem_nil
  | @snoc last next labels label before taken ih =>
    rw [List.append_assoc, List.singleton_append] at kept somebody
    have reached : shmMachine.Reachable next := ⟨start, _, ⟨sound, idle⟩, .snoc before taken⟩
    exact (ih kept somebody).step kept somebody (shmMachine_sound before sound) taken (shmMachine_mapped reached).2

/-- **No two of them are the same.** -/
theorem private_apart (initial : shmMachine.init start) (run : shmMachine.Run start labels last)
    (kept : PrivateKept labels) (first second : ℕ) (i j : ℕ) (exist exist' : Bool)
    (here : labels[first]? = some (i, .opened ipcPrivate exist id))
    (there : labels[second]? = some (j, .opened ipcPrivate exist' id)) : first = second := by
  have somebody : ∃ j, HandedOut (labels ++ []) j id :=
    ⟨i, exist, List.mem_append_left _ (List.mem_of_getElem? here)⟩
  rw [← List.append_nil labels] at kept
  have apart := List.pairwise_iff_getElem.mp (shmMachine_private initial run kept somebody).apart
  obtain ⟨inside, here⟩ := List.getElem?_eq_some_iff.mp here
  obtain ⟨inside', there⟩ := List.getElem?_eq_some_iff.mp there
  rcases Nat.lt_trichotomy first second with before | same | behind
  · exact absurd ⟨⟨exist, here ▸ rfl⟩, exist', there ▸ rfl⟩ (apart first second inside inside' before)
  · exact same
  · exact absurd ⟨⟨exist', there ▸ rfl⟩, exist, here ▸ rfl⟩ (apart second first inside' inside behind)

end Step

end Yarf.Memory
