/-
**Where the segments of the channels come from.**

`AddChannel` asks `CShm::InitByKey` for two segments without a key and leaves them attached; the objects are local and
never detach. What the results about channels take of these ids (`Distinct`) holds of every run of the objects of a
host in which the creator keeps its segments and nobody else removes them.
-/

import Yarf.Memory.ShmPrivate
import Yarf.Channel.Wiring

namespace Yarf.Channel

open Lib Memory

/-- The ids `AddChannel` is given are those of calls of `InitByKey` in the run, one call for each. -/
def Answers (initByKey : ℕ → Option ShmId) (labels : List (ℕ × ShmEvent)) : Prop :=
  ∃ place : ℕ → ℕ, Function.Injective place ∧ ∀ k id, initByKey k = some id →
    ∃ i exist, labels[place k]? = some (i, .opened ipcPrivate exist id)

/-- **The segments of the channels are different ones**, and each is in place with the object that asked for it. -/
theorem segments_distinct (initByKey : ℕ → Option ShmId) (start last : ShmHost) (labels : List (ℕ × ShmEvent))
    (initial : shmMachine.init start) (run : shmMachine.Run start labels last) (kept : PrivateKept labels)
    (answers : Answers initByKey labels) :
    (∀ n, Distinct initByKey n) ∧ ∀ k id, initByKey k = some id → ∃ i segment,
      HandedOut labels i id ∧ last.kernel id = some segment ∧ i ∈ segment.attached := by
  obtain ⟨place, injective, answered⟩ := answers
  constructor
  · rintro n k l id - - first second
    obtain ⟨i, exist, here⟩ := answered k id first
    obtain ⟨j, exist', there⟩ := answered l id second
    exact injective (private_apart initial run kept _ _ i j exist exist' here there)
  · intro k id given
    obtain ⟨i, exist, here⟩ := answered k id given
    have handed : HandedOut labels i id := ⟨exist, List.mem_of_getElem? here⟩
    rw [← List.append_nil labels] at kept handed
    have inv := shmMachine_private initial run kept ⟨i, handed⟩
    rw [List.append_nil] at handed
    obtain ⟨⟨size, member⟩, attached⟩ := inv.given i handed
    obtain ⟨segment, there, -⟩ := inv.alive i size member
    exact ⟨i, segment, handed, there, attached segment there⟩

/-- Two objects ask for a segment each. -/
def pairAsked : List (ℕ × ShmEvent) :=
  [(0, .initByKey 0 8 true), (0, .created 0 8 3), (0, .attached 3), (0, .opened 0 true 3),
    (1, .initByKey 0 8 true), (1, .created 0 8 4), (1, .attached 4), (1, .opened 0 true 4)]

theorem pairAsked_run : ∃ last, shmMachine.Run emptyHost pairAsked last := by
  have none : ∀ {kernel : Kernel} id, ¬kernel.Bound 0 id := fun _ bound => bound.1 rfl
  have asked := run_act (.nil emptyHost) 0 (.initByKey _ 0 8 true) trivial
  have created := run_act asked 0 (.fresh _ 8 true 3) ⟨rfl, by decide, none⟩
  have attached := run_act created 0 (.attached _ 0 8 3) ⟨_, rfl⟩
  have opened := run_act attached 0 (.opened _ 0 8 3 _) trivial
  have asked' := run_act opened 1 (.initByKey _ 0 8 true) trivial
  have created' := run_act asked' 1 (.fresh _ 8 true 4) ⟨rfl, by decide, none⟩
  have attached' := run_act created' 1 (.attached _ 0 8 4) ⟨_, rfl⟩
  exact ⟨_, run_act attached' 1 (.opened _ 0 8 4 _) trivial⟩

theorem pairAsked_kept : PrivateKept pairAsked := by
  constructor
  · rintro i id ⟨exist, -⟩ event member
    simp only [pairAsked, List.mem_cons, Prod.mk.injEq, List.not_mem_nil, or_false] at member
    rcases member with ⟨-, rfl⟩ | ⟨-, rfl⟩ | ⟨-, rfl⟩ | ⟨-, rfl⟩ | ⟨-, rfl⟩ | ⟨-, rfl⟩ | ⟨-, rfl⟩ | ⟨-, rfl⟩
    all_goals exact ⟨fun wrong => wrong.elim nofun nofun, nofun⟩
  · rintro before i event after id whole removes -
    have member : (i, event) ∈ pairAsked := whole ▸ List.mem_append_right _ List.mem_cons_self
    simp only [pairAsked, List.mem_cons, Prod.mk.injEq, List.not_mem_nil, or_false] at member
    rcases member with ⟨-, rfl⟩ | ⟨-, rfl⟩ | ⟨-, rfl⟩ | ⟨-, rfl⟩ | ⟨-, rfl⟩ | ⟨-, rfl⟩ | ⟨-, rfl⟩ | ⟨-, rfl⟩
    all_goals exact removes.elim

/-- The ids they are given. -/
def pairGiven (k : ℕ) : Option ShmId := if k < 2 then some (Int32.ofNat (k + 3)) else none

theorem pairGiven_answers : Answers pairGiven pairAsked := by
  refine ⟨fun k => 4 * k + 3, fun k l same => ?_, fun k id given => ?_⟩
  · dsimp only at same
    omega
  · match k with
    | 0 =>
      cases given
      exact ⟨0, true, rfl⟩
    | 1 =>
      cases given
      exact ⟨1, true, rfl⟩
    | k + 2 =>
      rw [pairGiven, if_neg (by omega)] at given
      cases given

theorem segments_distinct_pair : (∀ n, Distinct pairGiven n) ∧ ∃ i, HandedOut pairAsked i 4 := by
  obtain ⟨last, run⟩ := pairAsked_run
  obtain ⟨distinct, given⟩ := segments_distinct pairGiven emptyHost last pairAsked emptyHost_initial run
    pairAsked_kept pairGiven_answers
  obtain ⟨i, -, handed, -⟩ := given 1 4 rfl
  exact ⟨distinct, i, handed⟩

end Yarf.Channel
