/-
**Descending along a relation.**

A recursion that follows a relation `r` ends at a place when the place is accessible (`Acc (flip r)`). Where
finitely many places can be reached, that is a matter of cycles.

* `not_transGen_of_acc` — no cycle passes an accessible place;
* `acc_iff_acyclic` — without a cycle in reach, a finite place is accessible.
-/

import Mathlib.Data.Fintype.Card
import Mathlib.Data.Set.Finite.Basic
import Mathlib.Logic.Relation
import Mathlib.Order.WellFounded

namespace Lib

open Relation

variable {α : Type} {r : α → α → Prop} {a b : α} {places : Set α}

theorem not_transGen_of_acc (acc : Acc (flip r) a) : ¬TransGen r a a := by
  induction acc with
  | intro a _ ih =>
    intro cycle
    obtain ⟨next, step, back⟩ := TransGen.head'_iff.mp cycle
    exact ih next step (TransGen.tail' back step)

theorem acc_of_reaches (acc : Acc (flip r) a) (reaches : ReflTransGen r a b) : Acc (flip r) b := by
  induction reaches with
  | refl => exact acc
  | tail _ step ih => exact ih.inv step

/-- **In a finite set of places**, the descent from a place ends exactly when no cycle is in its reach. -/
theorem acc_iff_acyclic (finite : places.Finite) (closed : ∀ a ∈ places, ∀ b, r a b → b ∈ places)
    (member : a ∈ places) : Acc (flip r) a ↔ ∀ b, ReflTransGen r a b → ¬TransGen r b b := by
  constructor
  · exact fun acc b reaches => not_transGen_of_acc (acc_of_reaches acc reaches)
  · intro acyclic
    have := finite.to_subtype
    -- the relation among the places in reach
    let below : {b : places // ReflTransGen r a b} → {b : places // ReflTransGen r a b} → Prop :=
      fun b c => TransGen r c.1.1 b.1.1
    have : IsTrans _ below := ⟨fun _ _ _ first second => second.trans first⟩
    have : Std.Irrefl below := ⟨fun b cycle => acyclic b.1.1 b.2 cycle⟩
    have founded : WellFounded below := Finite.wellFounded_of_trans_of_irrefl below
    have all : ∀ b : {b : places // ReflTransGen r a b}, Acc (flip r) b.1.1 := by
      intro b
      induction b using founded.induction with
      | _ b ih =>
        refine ⟨_, fun c step => ?_⟩
        exact ih ⟨⟨c, closed _ b.1.2 c step⟩, b.2.tail step⟩ (.single step)
    exact all ⟨⟨a, member⟩, .refl⟩

end Lib
