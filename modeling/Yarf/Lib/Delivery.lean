/-
**What a queue delivers.**

`Delivers sent taken pending` compares the two ends of a queue: what has been put in, what has been
taken out, and what is still inside. A taken item may have been seen or only dropped.

* `Delivers.nil`, `Delivers.push`, `Delivers.pop` — how the three lists change together;
* `Delivers.seen_prefix` — when every item was seen, what was taken is a prefix of what was put in.
-/

import Mathlib.Data.List.Basic
import Mathlib.Order.Nat

namespace Lib

section Delivery

variable {α : Type}

/-- Everything put in has been taken out, in order and once, or is still pending. -/
structure Delivers (sent : List α) (taken : List (Option α)) (pending : List α) : Prop where
  /-- Nothing is taken that was not put in. -/
  few : taken.length ≤ sent.length
  /-- The `i`-th item taken is the `i`-th one put in. -/
  same : ∀ (i : ℕ) (item : α), taken[i]? = some (some item) → sent[i]? = some item
  /-- Nothing is lost. -/
  rest : pending = sent.drop taken.length

variable {sent pending : List α} {taken : List (Option α)}

theorem Delivers.nil : Delivers ([] : List α) [] [] :=
  ⟨le_rfl, nofun, rfl⟩

/-- One more item is put in. -/
theorem Delivers.push (delivers : Delivers sent taken pending) (item : α) :
    Delivers (sent ++ [item]) taken (pending ++ [item]) := by
  refine ⟨?_, ?_, ?_⟩
  · rw [List.length_append]
    exact delivers.few.trans (Nat.le_add_right _ _)
  · intro i seen here
    have old := delivers.same i seen here
    obtain ⟨inside, _⟩ := List.getElem?_eq_some_iff.mp old
    rw [List.getElem?_append_left inside]
    exact old
  · rw [List.drop_append_of_le_length delivers.few, delivers.rest]

/-- The oldest item is taken; whoever looked saw it. -/
theorem Delivers.pop {item : α} {rest : List α} (delivers : Delivers sent taken (item :: rest))
    (seen : Option α) (true_ : ∀ found, seen = some found → found = item) :
    Delivers sent (taken ++ [seen]) rest := by
  have front : sent[taken.length]? = some item := by
    rw [← List.head?_drop, ← delivers.rest, List.head?_cons]
  obtain ⟨inside, _⟩ := List.getElem?_eq_some_iff.mp front
  refine ⟨?_, ?_, ?_⟩
  · rw [List.length_append, List.length_singleton]
    exact inside
  · intro i found here
    rcases Nat.lt_trichotomy i taken.length with before | rfl | behind
    · rw [List.getElem?_append_left before] at here
      exact delivers.same i found here
    · rw [List.getElem?_concat_length] at here
      rw [front, true_ found (Option.some.inj here)]
    · rw [List.getElem?_eq_none (by rw [List.length_append, List.length_singleton]; omega)] at here
      cases here
  · rw [List.length_append, List.length_singleton, ← List.tail_drop, ← delivers.rest, List.tail_cons]

/-- Where every item taken was seen, the items are a prefix of what was put in. -/
theorem Delivers.seen_prefix {items : List α} (delivers : Delivers sent (items.map some) pending) :
    sent = items ++ pending := by
  have few := delivers.few
  rw [List.length_map] at few
  have front : items = sent.take items.length := by
    refine List.ext_getElem? fun i => ?_
    rcases Nat.lt_or_ge i items.length with inside | outside
    · rw [List.getElem?_take_of_lt inside, List.getElem?_eq_getElem inside]
      refine (delivers.same i _ ?_).symm
      rw [List.getElem?_map, List.getElem?_eq_getElem inside, Option.map_some]
    · rw [List.getElem?_eq_none outside, List.getElem?_eq_none]
      exact (List.length_take_le _ _).trans outside
  have back := delivers.rest
  rw [List.length_map] at back
  nth_rewrite 1 [← List.take_append_drop items.length sent]
  rw [← front, ← back]

end Delivery

end Lib
