/-
**Arrays with a size.**

A fixed array and the number of its elements in use, declared side by side as C code does. What is
behind the size is left over from earlier uses.

* `used_of_stored` — after a loop has stored to the front of the array, the elements in use are the ones
  it stored;
* `take_strncpy_eq_iff` — `strncpy` of a whole string is exact when nothing but zeros follows its first
  zero.
-/

import Mathlib.Data.List.Forall2
import Mathlib.Data.List.GetD
import Mathlib.Data.Vector.Basic
import Mathlib.Tactic.Common

namespace Lib

structure Sized (α : Type) (capacity : ℕ) where
  items : Vector α capacity
  size : UInt32

namespace Sized

variable {α : Type} {capacity : ℕ} {array : Sized α capacity} {values : List α}

/-- The elements in use; `none` if the size is beyond the array. -/
def used (array : Sized α capacity) : Option (List α) :=
  if array.size.toNat ≤ capacity then some (array.items.toList.take array.size.toNat) else none

theorem used_eq_some : array.used = some values ↔
    array.size.toNat ≤ capacity ∧ array.items.toList.take array.size.toNat = values := by
  unfold used
  split <;> simp_all

theorem length_of_used (used : array.used = some values) : values.length = array.size.toNat := by
  obtain ⟨inside, rfl⟩ := used_eq_some.mp used
  simp [inside]

theorem used_iff_getElem? : array.used = some values ↔ array.size.toNat ≤ capacity ∧
    values.length = array.size.toNat ∧ ∀ k < array.size.toNat, array.items[k]? = values[k]? := by
  rw [used_eq_some]
  refine and_congr_right fun inside => ⟨?_, fun ⟨length, same⟩ => ?_⟩
  · rintro rfl
    refine ⟨by simp [inside], fun k below => ?_⟩
    simp [List.getElem?_take_of_lt below]
  · refine List.ext_getElem? fun k => ?_
    by_cases below : k < array.size.toNat
    · simpa [List.getElem?_take_of_lt below] using same k below
    · rw [List.getElem?_eq_none (by simp; omega), List.getElem?_eq_none (by omega)]

end Sized

/-! ### `memcpy` within an array -/

section Memcpy

variable {α : Type} {capacity dest src count : ℕ} {before after : Vector α capacity}

/-- `memcpy` of `count` elements within an array: it says nothing about its destination when that
overlaps the source. -/
structure Memcpy (dest src count : ℕ) (before after : Vector α capacity) : Prop where
  frame : ∀ k, k < dest ∨ dest + count ≤ k → after[k]? = before[k]?
  copied : dest + count ≤ src ∨ src + count ≤ dest → ∀ k < count, after[dest + k]? = before[src + k]?

/-- Where the regions overlap anything may be left at the destination. -/
theorem memcpy_overlap (value : α) (overlap : dest < src + count ∧ src < dest + count) :
    Memcpy dest src count before (before.setIfInBounds dest value) := by
  refine ⟨fun k outside => ?_, fun apart => by omega⟩
  rw [Vector.getElem?_setIfInBounds_ne (by omega)]

end Memcpy

/-! ### Storing to an array from the front -/

section Store

variable {α β : Type} {store : β → α → Bool × α} {accepts : β → Prop}

/-- A loop that stores to the elements one after the other, up to the first failure. -/
def storeEach (store : β → α → Bool × α) : List β → List α → Bool × List α
  | [], items => (true, items)
  -- past the array: the callers compare the count with the capacity
  | _ :: _, [] => (true, [])
  | value :: values, item :: items =>
    if (store value item).1 then
      ((storeEach store values items).1, (store value item).2 :: (storeEach store values items).2)
    else (false, (store value item).2 :: items)

@[simp]
theorem length_storeEach (store : β → α → Bool × α) (values : List β) (items : List α) :
    (storeEach store values items).2.length = items.length := by
  fun_induction storeEach store values items <;> simp_all

/-- Whether a store succeeds depends on the value alone: so does whether the loop does. -/
theorem storeEach_done (done : ∀ value item, (store value item).1 = true ↔ accepts value)
    {values : List β} {items : List α} (room : values.length ≤ items.length) :
    (storeEach store values items).1 = true ↔ ∀ value ∈ values, accepts value := by
  fun_induction storeEach store values items with
  | case1 => simp
  | case2 => simp at room
  | case3 value values item items stored ih =>
    rw [ih (Nat.le_of_succ_le_succ room), List.forall_mem_cons, ← done value item]
    exact (and_iff_right stored).symm
  | case4 value values item items failed =>
    refine ⟨fun h => absurd h (by simp), fun all => absurd ?_ failed⟩
    exact (done value item).mpr (all value List.mem_cons_self)

/-- After a loop that succeeds, each element at the front is the outcome of one store. -/
theorem storeEach_forall₂ {values : List β} {items : List α} (room : values.length ≤ items.length)
    (succeeds : (storeEach store values items).1 = true) :
    List.Forall₂ (fun value after => ∃ item ∈ items, store value item = (true, after)) values
      ((storeEach store values items).2.take values.length) := by
  fun_induction storeEach store values items with
  | case1 => simp
  | case2 => simp at room
  | case3 value values item items stored ih =>
    refine .cons ⟨item, List.mem_cons_self, Prod.ext stored rfl⟩ ?_
    refine (ih (Nat.le_of_succ_le_succ room) succeeds).imp ?_
    rintro value after ⟨item, member, eq⟩
    exact ⟨item, List.mem_cons_of_mem _ member, eq⟩
  | case4 => simp at succeeds

/-- A partial function over a list is defined when it is at each element. -/
theorem mapM_eq_some_iff {f : α → Option β} {items : List α} {values : List β} :
    items.mapM f = some values ↔ List.Forall₂ (fun item value => f item = some value) items values := by
  induction items generalizing values with
  | nil => simp [eq_comm]
  | cons item items ih =>
    simp only [List.mapM_cons, List.forall₂_cons_left_iff, Option.bind_eq_bind, Option.bind_eq_some_iff,
      Option.pure_def, Option.some.injEq, ih, ← exists_and_left]
    refine exists_congr fun value => exists_congr fun rest => ?_
    exact and_congr_right fun _ => and_congr_right fun _ => eq_comm

theorem bind_mapM_some (items : Option (List α)) : items.bind (List.mapM some) = items := by
  cases items with
  | none => rfl
  | some items =>
    rw [Option.bind_some, mapM_eq_some_iff]
    exact List.forall₂_same.mpr fun _ _ => rfl

theorem exists_mapM_iff {f : α → Option β} {items : List α} :
    (∃ values, items.mapM f = some values ∧ ∀ value ∈ values, accepts value) ↔
      ∀ item ∈ items, ∃ value, f item = some value ∧ accepts value := by
  induction items with
  | nil => simp
  | cons item items ih =>
    rw [List.forall_mem_cons, ← ih]
    simp only [mapM_eq_some_iff, List.forall₂_cons_left_iff]
    constructor
    · rintro ⟨_, ⟨value, values, here, rest, rfl⟩, all⟩
      obtain ⟨first, others⟩ := List.forall_mem_cons.mp all
      exact ⟨⟨value, here, first⟩, values, rest, others⟩
    · rintro ⟨⟨value, here, first⟩, values, rest, others⟩
      exact ⟨value :: values, ⟨value, values, here, rest, rfl⟩,
        List.forall_mem_cons.mpr ⟨first, others⟩⟩

end Store

/-! ### `strncpy` -/

section Strncpy

variable {capacity len : ℕ} {dest : Vector UInt8 capacity} {source : List UInt8}

/-- Nothing but zeros follows the first zero. -/
def NulPadded (bytes : List UInt8) : Prop := ∀ byte ∈ bytes.dropWhile (· ≠ 0), byte = 0

instance (bytes : List UInt8) : Decidable (NulPadded bytes) := List.decidableBAll _ _

/-- The C string at `source`, cut or filled up with zeros to `len` bytes. -/
def strncpy (dest : Vector UInt8 capacity) (source : List UInt8) (len : ℕ) : Vector UInt8 capacity :=
  Vector.ofFn fun idx => if idx < len then (source.takeWhile (· ≠ 0)).getD idx 0 else dest[idx]

theorem getElem_strncpy {idx : ℕ} (inside : idx < capacity) : (strncpy dest source len)[idx] =
    if idx < len then (source.takeWhile (· ≠ 0)).getD idx 0 else dest[idx] := by
  simp [strncpy]

theorem take_strncpy (room : source.length ≤ capacity) :
    (strncpy dest source source.length).toList.take source.length =
      source.takeWhile (· ≠ 0) ++ List.replicate (source.dropWhile (· ≠ 0)).length 0 := by
  have split := source.takeWhile_append_dropWhile (p := fun byte => byte ≠ 0)
  refine List.ext_getElem ?_ fun idx inside _ => ?_
  · rw [List.length_take, Vector.length_toList, min_eq_left room, List.length_append,
      List.length_replicate, ← List.length_append, split]
  have inside : idx < source.length := lt_of_lt_of_le inside (List.length_take_le _ _)
  rw [List.getElem_take, Vector.getElem_toList, getElem_strncpy, if_pos inside, List.getElem_append]
  split
  · rw [List.getD_eq_getElem]
  · rw [List.getD_eq_default _ _ (by omega), List.getElem_replicate]

/-- A whole string arrives unchanged exactly when `strncpy` has nothing to lose behind a zero. -/
theorem take_strncpy_eq_iff (room : source.length ≤ capacity) :
    (strncpy dest source source.length).toList.take source.length = source ↔ NulPadded source := by
  rw [take_strncpy room]
  nth_rewrite 3 [← source.takeWhile_append_dropWhile (p := fun byte => byte ≠ 0)]
  rw [List.append_cancel_left_eq, eq_comm, List.eq_replicate_iff]
  exact and_iff_right rfl

/-- The bytes in front of the first zero at `source`, at most `max`. -/
def strnlen (source : ℕ → UInt8) : (max : ℕ) → ℕ
  | 0 => 0
  | max + 1 => if source 0 = 0 then 0 else strnlen (fun k => source (k + 1)) max + 1

theorem strnlen_spec (source : ℕ → UInt8) (max : ℕ) : strnlen source max ≤ max ∧
    (∀ k < strnlen source max, source k ≠ 0) ∧
    (strnlen source max < max → source (strnlen source max) = 0) := by
  fun_induction strnlen source max with
  | case1 => simp
  | case2 source max zero => simp [zero]
  | case3 source max other ih =>
    obtain ⟨short, front, ends⟩ := ih
    refine ⟨Nat.succ_le_succ short, fun k inside => ?_, fun below => ends (Nat.lt_of_succ_lt_succ below)⟩
    cases k with
    | zero => exact other
    | succ k => exact front k (Nat.lt_of_succ_lt_succ inside)

/-- A block copied to the front of an array. -/
def copyFront {α : Type} (dest : Vector α capacity) (source : List α) : Vector α capacity :=
  Vector.ofFn fun idx => source.getD idx dest[idx]

theorem getElem?_copyFront {α : Type} (dest : Vector α capacity) {source : List α}
    (room : source.length ≤ capacity) (k : ℕ) :
    (copyFront dest source)[k]? = if k < source.length then source[k]? else dest[k]? := by
  by_cases inside : k < capacity
  · rw [Vector.getElem?_eq_getElem inside]
    by_cases front : k < source.length
    · simp [copyFront, front]
    · simp [copyFront, front, inside]
  · have behind : ¬k < source.length := by omega
    rw [if_neg behind, Vector.getElem?_eq_none (by omega), Vector.getElem?_eq_none (by omega)]

/-- The elements in front of a place do not change when something is stored there. -/
theorem take_setIfInBounds (chars : Vector UInt8 capacity) (char : UInt8) :
    (chars.setIfInBounds len char).toList.take len = chars.toList.take len := by
  rw [Vector.toList_setIfInBounds]
  exact List.take_set_of_le (le_refl len)

end Strncpy

end Lib
