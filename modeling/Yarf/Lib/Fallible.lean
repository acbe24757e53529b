/-
**Loops that may fail.**

* `foldlM_eq` — a loop that adds what it makes of each element makes all of it first and adds it then;
* `mapM_eq_ok` — when all is made, as a pointwise relation;
* `exists_forall₂` — lists that are related to a given one.
-/

import Mathlib.Data.List.Forall2
import Mathlib.Tactic.Common

namespace Lib

variable {ε α β σ : Type}

theorem bind_ok (result : Except ε α) (f : α → β) : result.bind (fun value => .ok (f value)) = result.map f := by
  cases result <;> rfl

theorem map_eq_ok {result : Except ε α} {f : α → β} {b : β} :
    result.map f = .ok b ↔ ∃ a, result = .ok a ∧ f a = b := by
  cases result with
  | error fault => exact iff_of_false (fun wrong => by cases wrong) fun ⟨_, wrong, _⟩ => by cases wrong
  | ok a =>
    constructor
    · intro same
      exact ⟨a, rfl, Except.ok.inj same⟩
    · rintro ⟨a', same, rfl⟩
      rw [Except.ok.inj same]
      rfl

/-- A loop that adds what it makes of each element. -/
theorem foldlM_eq {step : σ → α → Except ε σ} {make : α → Except ε β} {add : σ → β → σ} {list : List α}
    (each : ∀ s, ∀ a ∈ list, step s a = (make a).map (add s)) (s : σ) :
    list.foldlM step s = (list.mapM make).map fun made => made.foldl add s := by
  induction list generalizing s with
  | nil => rfl
  | cons a list ih =>
    rw [List.foldlM_cons, each s a List.mem_cons_self, List.mapM_cons]
    cases make a with
    | error fault => rfl
    | ok b =>
      have rest := ih (fun s a member => each s a (List.mem_cons_of_mem _ member)) (add s b)
      show list.foldlM step (add s b) = _
      rw [rest]
      show _ = ((list.mapM make).bind fun made => Except.ok (b :: made)).map _
      cases list.mapM make <;> rfl

/-- All is made. -/
theorem mapM_eq_ok {make : α → Except ε β} {list : List α} {made : List β} :
    list.mapM make = .ok made ↔ List.Forall₂ (fun a b => make a = .ok b) list made := by
  induction list generalizing made with
  | nil =>
    rw [List.forall₂_nil_left_iff]
    constructor
    · intro same
      exact (Except.ok.inj same).symm
    · rintro rfl
      rfl
  | cons a list ih =>
    rw [List.mapM_cons, List.forall₂_cons_left_iff]
    cases first : make a with
    | error fault =>
      refine iff_of_false (fun wrong => by cases wrong) ?_
      rintro ⟨b, rest, wrong, -⟩
      cases wrong
    | ok b =>
      show (list.mapM make).bind (fun rest => Except.ok (b :: rest)) = _ ↔ _
      rw [bind_ok, map_eq_ok]
      constructor
      · rintro ⟨rest, all, rfl⟩
        exact ⟨b, rest, rfl, ih.mp all, rfl⟩
      · rintro ⟨b', rest, same, all, rfl⟩
        rw [Except.ok.inj same]
        exact ⟨rest, ih.mpr all, rfl⟩

/-! ### Pointwise relations -/

theorem exists_forall₂ {related : α → β → Prop} {list : List α} :
    (∃ other, List.Forall₂ related list other) ↔ ∀ a ∈ list, ∃ b, related a b := by
  induction list with
  | nil => simp
  | cons a list ih =>
    rw [List.forall_mem_cons, ← ih]
    constructor
    · rintro ⟨other, all⟩
      obtain ⟨b, rest, first, others, -⟩ := List.forall₂_cons_left_iff.mp all
      exact ⟨⟨b, first⟩, rest, others⟩
    · rintro ⟨⟨b, first⟩, rest, others⟩
      exact ⟨b :: rest, .cons first others⟩

theorem forall₂_imp {related related' : α → β → Prop} {list : List α} {other : List β}
    (weaker : ∀ a ∈ list, ∀ b, related a b → related' a b) (all : List.Forall₂ related list other) :
    List.Forall₂ related' list other := by
  induction all with
  | nil => exact .nil
  | cons first _ ih =>
    exact .cons (weaker _ List.mem_cons_self _ first) (ih fun a member => weaker a (List.mem_cons_of_mem _ member))

theorem forall₂_mem_right {related : α → β → Prop} {list : List α} {other : List β} {b : β}
    (all : List.Forall₂ related list other) (member : b ∈ other) : ∃ a ∈ list, related a b := by
  induction all with
  | nil => cases member
  | cons first _ ih =>
    rcases List.mem_cons.mp member with rfl | later
    · exact ⟨_, List.mem_cons_self, first⟩
    · obtain ⟨a, among, holds⟩ := ih later
      exact ⟨a, List.mem_cons_of_mem _ among, holds⟩

end Lib
