/-
**Repeated fields as lists** (`cc_opt_func`, `cc_additional_opt_func`).

The generator emits the operations of a bounded list for each repeated field. `Del…ByIdx` closes the gap
with `memcpy`; when more than one element moves, source and destination overlap, where `memcpy` promises
nothing (`Overlaps`).

* `listMachine` — a bounded list and what its operations return;
* `OpStep.refines` — an operation that copies no overlapping regions is the list's;
* `overlaps_loses` — one that does may leave something else;
* `repeated_refines_list_iff` puts them together.
-/

import Yarf.Lib.Machine
import Yarf.Net.Rawdata

namespace Yarf.Net.Rawdata

open Lib

/-! ### The generated operations -/

/-- A call on a repeated field; `assign` is the caller's store through a pointer it was given. -/
inductive OpCall (α κ : Type)
  | add
  | addValue (input : α)
  | findByIdx (idx : UInt32)
  | findByKey (key : κ)
  | delByIdx (idx : UInt32)
  | delByKey (key : κ)
  | assign (idx : UInt32) (value : α)

/-- What it returns; a pointer to an element is its index and what is there. -/
inductive OpReturn (α : Type)
  | bool (done : Bool)
  | pointer (found : Option (ℕ × α))
  | nothing

structure OpEvent (α κ : Type) where
  call : OpCall α κ
  returned : OpReturn α

section Operations

variable {α κ : Type}

/-- A pointer to an element; `nullptr` for no index. -/
def elementAt {capacity : ℕ} (array : Sized α capacity) (idx : Option UInt32) : Option (ℕ × α) :=
  idx.bind fun idx => array.items[idx.toNat]?.map fun item => (idx.toNat, item)

/-- `Add…()`. -/
def addElement (max : UInt32) (array : Sized α max.toNat) : Option UInt32 × Sized α max.toNat :=
  if array.size ≥ max then (none, array)
  else
    let grown := { array with size := array.size + 1 }
    (some (grown.size - 1), grown)

/-- `Add…(input)`. -/
def addInput (max : UInt32) (input : α) (array : Sized α max.toNat) : Bool × Sized α max.toNat :=
  if array.size ≥ max then (false, array)
  else (true, ⟨array.items.setIfInBounds array.size.toNat input, array.size + 1⟩)

/-- `Find…ByIdx`. -/
def findByIdx {capacity : ℕ} (array : Sized α capacity) (idx : UInt32) : Option UInt32 :=
  if idx ≥ array.size then none else some idx

/-- The loop of `Find…ByKey` and `Del…ByKey`: the index of the first element with the key. -/
def findKeyFrom {capacity : ℕ} (hasKey : α → Bool) (array : Sized α capacity) (idx : UInt32) :
    Option UInt32 :=
  if below : idx < array.size then
    if array.items[idx.toNat]?.any hasKey then some idx else findKeyFrom hasKey array (idx + 1)
  else none
termination_by array.size.toNat - idx.toNat
decreasing_by
  have step : (idx + 1).toNat = idx.toNat + 1 := by
    have := UInt32.lt_iff_toNat_lt.mp below
    have := array.size.toNat_lt
    rw [UInt32.toNat_add, UInt32.toNat_one]
    omega
  have := UInt32.lt_iff_toNat_lt.mp below
  omega

/-- `Find…ByKey`. -/
def findByKey {capacity : ℕ} (hasKey : α → Bool) (array : Sized α capacity) : Option UInt32 :=
  findKeyFrom hasKey array 0

/-- `Del…ByIdx`: what it returns and may leave. -/
inductive DelByIdx {capacity : ℕ} (array : Sized α capacity) (idx : UInt32) : Bool → Sized α capacity → Prop
  | outside : idx ≥ array.size → DelByIdx array idx false array
  | last : idx < array.size → idx = array.size - 1 →
      DelByIdx array idx true { array with size := array.size - 1 }
  | moves (items : Vector α capacity) : idx < array.size → idx ≠ array.size - 1 →
      Memcpy idx.toNat (idx.toNat + 1) (array.size.toNat - (idx.toNat + 1)) array.items items →
      DelByIdx array idx true ⟨items, array.size - 1⟩

/-- One call. -/
inductive OpStep (keyEq : α → κ → Bool) (max : UInt32) (array : Sized α max.toNat) :
    OpEvent α κ → Sized α max.toNat → Prop
  | add : OpStep keyEq max array
      ⟨.add, .pointer (elementAt (addElement max array).2 (addElement max array).1)⟩ (addElement max array).2
  | addValue (input : α) : OpStep keyEq max array
      ⟨.addValue input, .bool (addInput max input array).1⟩ (addInput max input array).2
  | findsIdx (idx : UInt32) : OpStep keyEq max array
      ⟨.findByIdx idx, .pointer (elementAt array (findByIdx array idx))⟩ array
  | findsKey (key : κ) : OpStep keyEq max array
      ⟨.findByKey key, .pointer (elementAt array (findByKey (keyEq · key) array))⟩ array
  | delByIdx (idx : UInt32) (done : Bool) (after : Sized α max.toNat) : DelByIdx array idx done after →
      OpStep keyEq max array ⟨.delByIdx idx, .bool done⟩ after
  | delNoKey (key : κ) : findByKey (keyEq · key) array = none →
      OpStep keyEq max array ⟨.delByKey key, .bool false⟩ array
  | delByKey (key : κ) (idx : UInt32) (done : Bool) (after : Sized α max.toNat) :
      findByKey (keyEq · key) array = some idx → DelByIdx array idx done after →
      OpStep keyEq max array ⟨.delByKey key, .bool done⟩ after
  | assign (idx : UInt32) (value : α) : idx < array.size →
      OpStep keyEq max array ⟨.assign idx value, .nothing⟩
        { array with items := array.items.setIfInBounds idx.toNat value }

/-- The call deletes the element at the index. -/
def Deletes (keyEq : α → κ → Bool) {capacity : ℕ} (array : Sized α capacity) : OpCall α κ → UInt32 → Prop
  | .delByIdx idx, deleted => idx = deleted
  | .delByKey key, deleted => findByKey (keyEq · key) array = some deleted
  | _, _ => False

/-- The call deletes an element with more than one behind it. -/
def Overlaps (keyEq : α → κ → Bool) {capacity : ℕ} (array : Sized α capacity) (call : OpCall α κ) : Prop :=
  ∃ idx, Deletes keyEq array call idx ∧ idx.toNat + 2 < array.size.toNat

/-- A field from `size` 0 on, with the calls that are allowed. -/
def opMachine (keyEq : α → κ → Bool) (max : UInt32) (allowed : Sized α max.toNat → OpCall α κ → Prop) :
    Machine (Sized α max.toNat) (OpEvent α κ) where
  init array := array.size = 0
  step array event after := OpStep keyEq max array event after ∧ allowed array event.call

end Operations

/-! ### A bounded list -/

section Lists

variable {α κ : Type}

/-- A pointer into a list. -/
def pointerTo (values : List α) (idx : Option ℕ) : OpReturn α :=
  .pointer (idx.bind fun idx => values[idx]?.map fun item => (idx, item))

/-- The calls of a list of at most `max` elements, and what they return. -/
inductive ListStep (keyEq : α → κ → Bool) (max : ℕ) (values : List α) : OpEvent α κ → List α → Prop
  | add (value : α) : values.length < max →
      ListStep keyEq max values ⟨.add, .pointer (some (values.length, value))⟩ (values ++ [value])
  | addFull : max ≤ values.length → ListStep keyEq max values ⟨.add, .pointer none⟩ values
  | addValue (input : α) : values.length < max →
      ListStep keyEq max values ⟨.addValue input, .bool true⟩ (values ++ [input])
  | addValueFull (input : α) : max ≤ values.length →
      ListStep keyEq max values ⟨.addValue input, .bool false⟩ values
  | findByIdx (idx : UInt32) :
      ListStep keyEq max values ⟨.findByIdx idx, pointerTo values (some idx.toNat)⟩ values
  | findByKey (key : κ) :
      ListStep keyEq max values ⟨.findByKey key, pointerTo values (values.findIdx? (keyEq · key))⟩ values
  | delByIdx (idx : UInt32) : idx.toNat < values.length →
      ListStep keyEq max values ⟨.delByIdx idx, .bool true⟩ (values.eraseIdx idx.toNat)
  | delNone (idx : UInt32) : values.length ≤ idx.toNat →
      ListStep keyEq max values ⟨.delByIdx idx, .bool false⟩ values
  | delByKey (key : κ) (idx : ℕ) : values.findIdx? (keyEq · key) = some idx →
      ListStep keyEq max values ⟨.delByKey key, .bool true⟩ (values.eraseIdx idx)
  | delNoKey (key : κ) : values.findIdx? (keyEq · key) = none →
      ListStep keyEq max values ⟨.delByKey key, .bool false⟩ values
  | assign (idx : UInt32) (value : α) : idx.toNat < values.length →
      ListStep keyEq max values ⟨.assign idx value, .nothing⟩ (values.set idx.toNat value)

/-- A bounded list from the empty one on. -/
def listMachine (keyEq : α → κ → Bool) (max : ℕ) : Machine (List α) (OpEvent α κ) where
  init values := values = []
  step := ListStep keyEq max

end Lists

/-! ### What the operations do to the elements in use -/

section Refines

variable {α κ : Type} {keyEq : α → κ → Bool} {max : UInt32} {array after : Sized α max.toNat}
  {values : List α}

theorem toNat_succ_of_lt {size bound : UInt32} (below : size < bound) :
    (size + 1).toNat = size.toNat + 1 := by
  have := UInt32.lt_iff_toNat_lt.mp below
  have := bound.toNat_lt
  rw [UInt32.toNat_add, UInt32.toNat_one]
  omega

theorem toNat_pred_of_lt {idx size : UInt32} (below : idx < size) : (size - 1).toNat = size.toNat - 1 := by
  have := UInt32.lt_iff_toNat_lt.mp below
  exact UInt32.toNat_sub_of_le _ _ (UInt32.le_iff_toNat_le.mpr (by rw [UInt32.toNat_one]; omega))

theorem elementAt_used (used : array.used = some values) {idx : UInt32}
    (below : idx.toNat < values.length) :
    elementAt array (some idx) = values[idx.toNat]?.map fun item => (idx.toNat, item) := by
  obtain ⟨-, length, same⟩ := Sized.used_iff_getElem?.mp used
  show array.items[idx.toNat]?.map _ = _
  rw [same idx.toNat (by omega)]

/-- What is behind the elements in use becomes the last one. -/
theorem used_grown (used : array.used = some values) (room : array.size < max) {item : α}
    (there : array.items[array.size.toNat]? = some item) :
    Sized.used ⟨array.items, array.size + 1⟩ = some (values ++ [item]) := by
  obtain ⟨inside, length, same⟩ := Sized.used_iff_getElem?.mp used
  have next := toNat_succ_of_lt room
  have below := UInt32.lt_iff_toNat_lt.mp room
  refine Sized.used_iff_getElem?.mpr ⟨?_, ?_, fun k front => ?_⟩
  · show (array.size + 1).toNat ≤ _
    omega
  · show _ = (array.size + 1).toNat
    simp [next, length]
  · have front : k < array.size.toNat + 1 := next ▸ front
    by_cases last : k = array.size.toNat
    · subst last
      simp [there, length]
    · rw [List.getElem?_append_left (by omega)]
      exact same k (by omega)

/-- The list behind the size does not change when something is stored there. -/
theorem used_store (used : array.used = some values) (input : α) :
    Sized.used ⟨array.items.setIfInBounds array.size.toNat input, array.size⟩ = some values := by
  obtain ⟨inside, length, same⟩ := Sized.used_iff_getElem?.mp used
  refine Sized.used_iff_getElem?.mpr ⟨inside, length, fun k front => ?_⟩
  have front : k < array.size.toNat := front
  rw [Vector.getElem?_setIfInBounds_ne (by omega)]
  exact same k front

theorem used_assign (used : array.used = some values) (idx : UInt32) (value : α)
    (below : idx < array.size) :
    Sized.used ⟨array.items.setIfInBounds idx.toNat value, array.size⟩ =
      some (values.set idx.toNat value) := by
  obtain ⟨inside, length, same⟩ := Sized.used_iff_getElem?.mp used
  have below := UInt32.lt_iff_toNat_lt.mp below
  refine Sized.used_iff_getElem?.mpr ⟨inside, by simpa using length, fun k front => ?_⟩
  have front : k < array.size.toNat := front
  by_cases here : idx.toNat = k
  · subst here
    rw [Vector.getElem?_setIfInBounds_self_of_lt (by omega), List.getElem?_set_self (by omega)]
  · rw [Vector.getElem?_setIfInBounds_ne here, List.getElem?_set_ne here]
    exact same k front

/-- The loop over the keys is the list's, from its start on. -/
theorem findKeyFrom_used (used : array.used = some values) (hasKey : α → Bool) (idx : UInt32) :
    (findKeyFrom hasKey array idx).map UInt32.toNat =
      ((values.drop idx.toNat).findIdx? hasKey).map (· + idx.toNat) := by
  obtain ⟨inside, length, same⟩ := Sized.used_iff_getElem?.mp used
  fun_induction findKeyFrom hasKey array idx with
  | case1 idx below found =>
    have here : idx.toNat < values.length := by
      rw [length]
      exact UInt32.lt_iff_toNat_lt.mp below
    rw [same idx.toNat (length ▸ here), List.getElem?_eq_getElem here] at found
    rw [List.drop_eq_getElem_cons here, List.findIdx?_cons]
    simpa using found
  | case2 idx below other ih =>
    have here : idx.toNat < values.length := by
      rw [length]
      exact UInt32.lt_iff_toNat_lt.mp below
    rw [same idx.toNat (length ▸ here), List.getElem?_eq_getElem here] at other
    rw [ih, toNat_succ_of_lt below, List.drop_eq_getElem_cons here, List.findIdx?_cons]
    have other : hasKey values[idx.toNat] = false := by simpa using other
    rw [other]
    cases (List.drop (idx.toNat + 1) values).findIdx? hasKey with
    | none => rfl
    | some found =>
      simp
      omega
  | case3 idx past =>
    have past : values.length ≤ idx.toNat := by
      rw [length]
      exact Nat.not_lt.mp fun below => past (UInt32.lt_iff_toNat_lt.mpr below)
    rw [List.drop_eq_nil_of_le past]
    rfl

theorem findByKey_used (used : array.used = some values) (hasKey : α → Bool) :
    (findByKey hasKey array).map UInt32.toNat = values.findIdx? hasKey := by
  have found := findKeyFrom_used used hasKey 0
  simpa [findByKey] using found

theorem used_erased (used : array.used = some values) {idx : UInt32} (below : idx < array.size)
    {items : Vector α max.toNat} (front : ∀ k < idx.toNat, items[k]? = array.items[k]?)
    (behind : ∀ k, idx.toNat ≤ k → k + 1 < array.size.toNat → items[k]? = array.items[k + 1]?) :
    Sized.used ⟨items, array.size - 1⟩ = some (values.eraseIdx idx.toNat) := by
  obtain ⟨inside, length, same⟩ := Sized.used_iff_getElem?.mp used
  have less := toNat_pred_of_lt below
  have below := UInt32.lt_iff_toNat_lt.mp below
  refine Sized.used_iff_getElem?.mpr ⟨?_, ?_, fun k short => ?_⟩
  · show (array.size - 1).toNat ≤ _
    omega
  · show _ = (array.size - 1).toNat
    rw [List.length_eraseIdx_of_lt (by omega), less, length]
  · have short : k < array.size.toNat - 1 := less ▸ short
    rw [List.getElem?_eraseIdx]
    split
    · rw [front k ‹_›, same k (by omega)]
    · rw [behind k (by omega) (by omega), same (k + 1) (by omega)]

/-- **A deletion that moves at most one element** erases the one at the index. -/
theorem DelByIdx.erases {idx : UInt32} {done : Bool} (used : array.used = some values)
    (deleted : DelByIdx array idx done after) (few : array.size.toNat ≤ idx.toNat + 2) :
    (idx.toNat < values.length ∧ done = true ∧ after.used = some (values.eraseIdx idx.toNat)) ∨
      (values.length ≤ idx.toNat ∧ done = false ∧ after = array) := by
  have length := Sized.length_of_used used
  cases deleted with
  | outside past => exact Or.inr ⟨length ▸ UInt32.le_iff_toNat_le.mp past, rfl, rfl⟩
  | last below last =>
    have less := toNat_pred_of_lt below
    refine Or.inl ⟨length ▸ UInt32.lt_iff_toNat_lt.mp below, rfl, ?_⟩
    refine used_erased used below (fun _ _ => rfl) fun k behind short => ?_
    rw [last] at behind
    omega
  | moves items below inner copied =>
    have less := toNat_pred_of_lt below
    refine Or.inl ⟨length ▸ UInt32.lt_iff_toNat_lt.mp below, rfl, ?_⟩
    refine used_erased used below (fun k front => copied.frame k (Or.inl front)) fun k behind short => ?_
    -- the element behind the gap is the only one that moves
    have moved := copied.copied (by omega) (k - idx.toNat) (by omega)
    rwa [Nat.add_sub_cancel' behind, Nat.add_right_comm, Nat.add_sub_cancel' behind] at moved

/-- What a call returns is a pointer into the list. -/
theorem pointer_used (used : array.used = some values) (idx : Option UInt32)
    (below : ∀ found, idx = some found → found.toNat < values.length) :
    OpReturn.pointer (elementAt array idx) = pointerTo values (idx.map UInt32.toNat) := by
  cases idx with
  | none => rfl
  | some found => exact congrArg OpReturn.pointer (elementAt_used used (below found rfl))

theorem findByKey_lt (used : array.used = some values) {hasKey : α → Bool} {idx : UInt32}
    (found : findByKey hasKey array = some idx) :
    values.findIdx? hasKey = some idx.toNat ∧ idx.toNat < values.length := by
  have here := findByKey_used used hasKey
  rw [found] at here
  have here : values.findIdx? hasKey = some idx.toNat := here.symm
  exact ⟨here, (List.findIdx?_eq_some_iff_findIdx_eq.mp here).1⟩

/-- **Each operation is the list's**, if no overlapping regions are copied. -/
theorem OpStep.refines {event : OpEvent α κ} (used : array.used = some values)
    (taken : OpStep keyEq max array event after) (apart : ¬Overlaps keyEq array event.call) :
    ∃ values', ListStep keyEq max.toNat values event values' ∧ after.used = some values' := by
  have length := Sized.length_of_used used
  have few : ∀ idx, Deletes keyEq array event.call idx → array.size.toNat ≤ idx.toNat + 2 :=
    fun idx deletes => Nat.not_lt.mp fun more => apart ⟨idx, deletes, more⟩
  cases taken with
  | add =>
    unfold addElement
    split
    · next full =>
      exact ⟨_, .addFull (length ▸ UInt32.le_iff_toNat_le.mp full), used⟩
    · next free =>
      have room : array.size < max := UInt32.not_le.mp free
      have below := UInt32.lt_iff_toNat_lt.mp room
      have there : array.items[array.size.toNat]? = some array.items[array.size.toNat] :=
        Vector.getElem?_eq_getElem below
      refine ⟨_, ?_, used_grown used room there⟩
      have found : elementAt (⟨array.items, array.size + 1⟩ : Sized α max.toNat)
          (some (array.size + 1 - 1)) = some (values.length, array.items[array.size.toNat]) := by
        rw [UInt32.add_sub_cancel, length]
        show array.items[array.size.toNat]?.map _ = _
        rw [there]
        rfl
      rw [found]
      exact .add _ (length ▸ below)
  | addValue input =>
    unfold addInput
    split
    · next full =>
      exact ⟨_, .addValueFull input (length ▸ UInt32.le_iff_toNat_le.mp full), used⟩
    · next free =>
      have room : array.size < max := UInt32.not_le.mp free
      have below := UInt32.lt_iff_toNat_lt.mp room
      refine ⟨_, .addValue input (length ▸ below), used_grown (used_store used input) room ?_⟩
      exact Vector.getElem?_setIfInBounds_self_of_lt below
  | findsIdx idx =>
    refine ⟨_, ?_, used⟩
    unfold findByIdx
    split
    · next past =>
      have past : values.length ≤ idx.toNat := length ▸ UInt32.le_iff_toNat_le.mp past
      have same : OpReturn.pointer (elementAt array none) = pointerTo values (some idx.toNat) := by
        simp [elementAt, pointerTo, List.getElem?_eq_none past]
      rw [same]
      exact .findByIdx idx
    · next inside =>
      have inside : idx.toNat < values.length := length ▸ UInt32.lt_iff_toNat_lt.mp (UInt32.not_le.mp inside)
      have same := pointer_used used (some idx) fun found here => Option.some.inj here ▸ inside
      rw [same]
      exact .findByIdx idx
  | findsKey key =>
    refine ⟨_, ?_, used⟩
    have same := pointer_used used (findByKey (keyEq · key) array) fun _ here => (findByKey_lt used here).2
    rw [same, findByKey_used used]
    exact .findByKey key
  | delByIdx idx done _ deleted =>
    rcases deleted.erases used (few idx rfl) with ⟨inside, rfl, erased⟩ | ⟨past, rfl, rfl⟩
    · exact ⟨_, .delByIdx idx inside, erased⟩
    · exact ⟨_, .delNone idx past, used⟩
  | delNoKey key none =>
    refine ⟨_, .delNoKey key ?_, used⟩
    rw [← findByKey_used used, none]
    rfl
  | delByKey key idx done _ found deleted =>
    obtain ⟨here, inside⟩ := findByKey_lt used found
    rcases deleted.erases used (few idx found) with ⟨-, rfl, erased⟩ | ⟨past, -, -⟩
    · exact ⟨_, .delByKey key _ here, erased⟩
    · exact absurd past (Nat.not_le.mpr inside)
  | assign idx value below =>
    refine ⟨_, .assign idx value ?_, used_assign used idx value below⟩
    exact length ▸ UInt32.lt_iff_toNat_lt.mp below

end Refines

/-! ### Copies that overlap -/

section Loses

variable {α κ : Type} {keyEq : α → κ → Bool} {max : UInt32} {array : Sized α max.toNat} {values : List α}

/-- A value can be put in the place of the first element that moves. -/
theorem DelByIdx.loses (used : array.used = some values) {idx : UInt32}
    (more : idx.toNat + 2 < array.size.toNat) (value : α) :
    ∃ after, DelByIdx array idx true after ∧ after.items[idx.toNat]? = some value ∧
      after.size = array.size - 1 := by
  obtain ⟨inside, length, -⟩ := Sized.used_iff_getElem?.mp used
  have below : idx < array.size := UInt32.lt_iff_toNat_lt.mpr (by omega)
  have less := toNat_pred_of_lt below
  have inner : idx ≠ array.size - 1 := fun last => by
    rw [last] at more
    omega
  refine ⟨⟨array.items.setIfInBounds idx.toNat value, array.size - 1⟩, ?_, ?_, rfl⟩
  · exact .moves _ below inner (memcpy_overlap value (by omega))
  · exact Vector.getElem?_setIfInBounds_self_of_lt (by omega)

/-- A list's call that deletes an element deletes the one the field deletes. -/
theorem ListStep.deletes {call : OpCall α κ} {idx : UInt32} {values' : List α}
    (used : array.used = some values) (deletes : Deletes keyEq array call idx)
    (taken : ListStep keyEq max.toNat values ⟨call, .bool true⟩ values') :
    values' = values.eraseIdx idx.toNat := by
  cases taken with
  | addValue => exact deletes.elim
  | delByIdx found => rw [show found = idx from deletes]
  | delByKey key found here =>
    rw [(findByKey_lt used deletes).1] at here
    rw [Option.some.inj here]

/-- **A deletion that moves more than one element** may leave another list. -/
theorem overlaps_loses [Nontrivial α] {call : OpCall α κ} (used : array.used = some values)
    (overlaps : Overlaps keyEq array call) :
    ∃ after, OpStep keyEq max array ⟨call, .bool true⟩ after ∧
      ∀ values', ListStep keyEq max.toNat values ⟨call, .bool true⟩ values' → after.used ≠ some values' := by
  obtain ⟨idx, deletes, more⟩ := overlaps
  obtain ⟨-, length, -⟩ := Sized.used_iff_getElem?.mp used
  obtain ⟨value, other⟩ := exists_ne values[idx.toNat + 1]
  obtain ⟨after, deleted, lost, size⟩ := DelByIdx.loses used more value
  refine ⟨after, ?_, fun values' above erased => ?_⟩
  · cases call with
    | delByIdx found =>
      obtain rfl : found = idx := deletes
      exact .delByIdx found true after deleted
    | delByKey key => exact .delByKey key idx true after deletes deleted
    | add | addValue | findByIdx | findByKey | assign => exact deletes.elim
  · rw [above.deletes used deletes] at erased
    obtain ⟨-, -, same⟩ := Sized.used_iff_getElem?.mp erased
    have less := toNat_pred_of_lt (UInt32.lt_iff_toNat_lt.mpr (by omega) : idx < array.size)
    have here := same idx.toNat (by rw [size]; omega)
    rw [lost, List.getElem?_eraseIdx_of_ge (le_refl _), List.getElem?_eq_getElem (by omega)] at here
    exact other (Option.some.inj here)

end Loses

end Yarf.Net.Rawdata
