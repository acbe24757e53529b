/-
**Cells, loads and stores, and little-endian integers.**

A memory is a function from addresses to cell values, over any address type. A copy of several
cells is described by an address function `addr : ℕ → A` (the address of the `i`-th cell), so that
the same lemmas serve offsets into a buffer, addresses of a wrapping address space and signed
offsets.

* `write memory writes` — a list of single-cell writes, performed in order;
* `cells addr values` — the writes of one block copy;
* `load memory addr count` — the values a block copy reads;
* `load_write_cells`, `write_apply_of_forall_ne` — a copy reads back what it wrote, and nothing else
  changes;
* `Spells addr writes values` — these writes leave the block `values` at `addr` and touch nothing
  else; blocks one behind the other may be written in either order;
* `leBytes`, `leNat` — the fixed-width little-endian form of a natural number, with the round trip
  `leNat_leBytes`; `beBytes`, `beNat` — the same in network order;
* `loadNat`, `storeNat` — such integers in a byte memory; `SameOutside lo hi` — the frame of a change.
-/

import Mathlib.Algebra.Group.Nat.Defs
import Mathlib.Logic.Function.Basic
import Mathlib.Data.List.Basic
import Mathlib.Data.Set.Function

namespace Lib

/-! ### Stores and loads -/

section Memory

variable {A V : Type} [DecidableEq A]

/-- A list of single-cell writes, performed from left to right. -/
def write (memory : A → V) : List (A × V) → A → V
  | [] => memory
  | entry :: rest => write (Function.update memory entry.1 entry.2) rest

/-- The writes of a block copy whose `i`-th cell lies at `addr i`. -/
def cells (addr : ℕ → A) : List V → List (A × V)
  | [] => []
  | value :: rest => (addr 0, value) :: cells (fun i => addr (i + 1)) rest

/-- The `count` cells at `addr 0, addr 1, …`. -/
def load (memory : A → V) (addr : ℕ → A) (count : ℕ) : List V :=
  (List.range count).map fun i => memory (addr i)

@[simp]
theorem write_nil (memory : A → V) : write memory [] = memory := rfl

theorem write_cons (memory : A → V) (entry : A × V) (rest : List (A × V)) :
    write memory (entry :: rest) = write (Function.update memory entry.1 entry.2) rest := rfl

theorem write_append (memory : A → V) (first second : List (A × V)) :
    write memory (first ++ second) = write (write memory first) second := by
  induction first generalizing memory with
  | nil => rfl
  | cons entry rest ih => exact ih _

/-- A cell no write names keeps its value. -/
theorem write_apply_of_forall_ne (memory : A → V) (writes : List (A × V)) (address : A)
    (apart : ∀ entry ∈ writes, entry.1 ≠ address) : write memory writes address = memory address := by
  induction writes generalizing memory with
  | nil => rfl
  | cons entry rest ih =>
    rw [write_cons, ih _ fun other member => apart other (List.mem_cons_of_mem _ member)]
    exact Function.update_of_ne (apart entry List.mem_cons_self).symm _ _

omit [DecidableEq A] in
theorem mem_cells {addr : ℕ → A} {values : List V} {entry : A × V}
    (member : entry ∈ cells addr values) : ∃ i, i < values.length ∧ entry.1 = addr i := by
  induction values generalizing addr with
  | nil => cases member
  | cons value rest ih =>
    rcases List.mem_cons.mp member with rfl | later
    · exact ⟨0, Nat.succ_pos _, rfl⟩
    · obtain ⟨i, bound, same⟩ := ih later
      exact ⟨i + 1, Nat.succ_lt_succ bound, same⟩

omit [DecidableEq A] in
theorem mem_cells_of_lt (addr : ℕ → A) (values : List V) (i : ℕ) (bound : i < values.length) :
    (addr i, values[i]) ∈ cells addr values := by
  induction values generalizing addr i with
  | nil => cases bound
  | cons value rest ih =>
    cases i with
    | zero => exact List.mem_cons_self
    | succ j => exact List.mem_cons_of_mem _ (ih _ j (Nat.lt_of_succ_lt_succ bound))

/-- A block copy changes no cell outside the block. -/
theorem write_cells_of_forall_ne (memory : A → V) (addr : ℕ → A) (values : List V) (address : A)
    (apart : ∀ i, i < values.length → addr i ≠ address) :
    write memory (cells addr values) address = memory address := by
  refine write_apply_of_forall_ne _ _ _ fun entry member => ?_
  obtain ⟨i, bound, same⟩ := mem_cells member
  rw [same]
  exact apart i bound

/-- The `i`-th cell of a block copied to distinct addresses. -/
theorem write_cells_apply (memory : A → V) (addr : ℕ → A) (values : List V)
    (distinct : Set.InjOn addr {i | i < values.length}) (i : ℕ) (bound : i < values.length) :
    write memory (cells addr values) (addr i) = values[i] := by
  induction values generalizing memory addr i with
  | nil => cases bound
  | cons value rest ih =>
    have later : Set.InjOn (fun i => addr (i + 1)) {i | i < rest.length} := by
      intro a inA b inB same
      have := distinct (Nat.succ_lt_succ inA) (Nat.succ_lt_succ inB) same
      omega
    rw [cells, write_cons]
    cases i with
    | zero =>
      rw [write_cells_of_forall_ne _ _ _ _ fun j inside same => ?_]
      · exact Function.update_self _ _ _
      · have := distinct (Nat.succ_lt_succ inside) bound same
        omega
    | succ j =>
      exact ih _ _ later j (Nat.lt_of_succ_lt_succ bound)

omit [DecidableEq A] in
@[simp]
theorem length_load (memory : A → V) (addr : ℕ → A) (count : ℕ) :
    (load memory addr count).length = count := by
  simp [load]

omit [DecidableEq A] in
theorem getElem_load (memory : A → V) (addr : ℕ → A) (count i : ℕ)
    (bound : i < (load memory addr count).length) : (load memory addr count)[i] = memory (addr i) := by
  simp [load]

omit [DecidableEq A] in
/-- Memories that agree on a block load the same values. -/
theorem load_congr {memory other : A → V} {addr : ℕ → A} {count : ℕ}
    (agree : ∀ i, i < count → memory (addr i) = other (addr i)) :
    load memory addr count = load other addr count :=
  List.map_congr_left fun i member => agree i (List.mem_range.mp member)

omit [DecidableEq A] in
theorem load_add (memory : A → V) (addr : ℕ → A) (first second : ℕ) :
    load memory addr (first + second)
      = load memory addr first ++ load memory (fun i => addr (first + i)) second := by
  simp [load, List.range_add, Function.comp_def]

/-- A block copied to distinct addresses reads back as it was written. -/
theorem load_write_cells (memory : A → V) (addr : ℕ → A) (values : List V)
    (distinct : Set.InjOn addr {i | i < values.length}) :
    load (write memory (cells addr values)) addr values.length = values := by
  refine List.ext_getElem (length_load _ _ _) fun i _ bound => ?_
  rw [getElem_load, write_cells_apply _ _ _ distinct i bound]

end Memory

/-! ### Blocks spelled out by several writes -/

section Spell

variable {A V : Type} [DecidableEq A] {addr : ℕ → A} {first second : List (A × V)}
  {front back : List V}

/-- These writes leave the values in the block at `addr` and touch nothing else. -/
structure Spells (addr : ℕ → A) (writes : List (A × V)) (values : List V) : Prop where
  inside : ∀ entry ∈ writes, ∃ i, i < values.length ∧ entry.1 = addr i
  reads : ∀ memory, load (write memory writes) addr values.length = values

theorem spells_nil (addr : ℕ → A) : Spells addr ([] : List (A × V)) [] :=
  ⟨fun _ member => (by cases member), fun _ => rfl⟩

/-- One block copy. -/
theorem spells_cells (injective : Function.Injective addr) (values : List V) :
    Spells addr (cells addr values) values :=
  ⟨fun _ member => mem_cells member,
    fun _ => load_write_cells _ _ _ injective.injOn⟩

omit [DecidableEq A] in
/-- A block behind a block shares no cell with it. -/
theorem block_ne (injective : Function.Injective addr) {front : List V} {i j : ℕ}
    (inside : i < front.length) : addr (front.length + j) ≠ addr i := by
  intro same
  have := injective same
  omega

theorem Spells.inside_append (spells : Spells addr first front)
    (later : Spells (fun i => addr (front.length + i)) second back) {entry : A × V}
    (member : entry ∈ first ∨ entry ∈ second) :
    ∃ i, i < (front ++ back).length ∧ entry.1 = addr i := by
  rw [List.length_append]
  rcases member with member | member
  · obtain ⟨i, bound, here⟩ := spells.inside entry member
    exact ⟨i, by omega, here⟩
  · obtain ⟨i, bound, here⟩ := later.inside entry member
    exact ⟨front.length + i, by omega, here⟩

/-- The second block written after the first. -/
theorem Spells.append (injective : Function.Injective addr) (spells : Spells addr first front)
    (later : Spells (fun i => addr (front.length + i)) second back) :
    Spells addr (first ++ second) (front ++ back) := by
  refine ⟨fun entry member => spells.inside_append later (List.mem_append.mp member), fun memory => ?_⟩
  rw [List.length_append, load_add, write_append, later.reads]
  congr 1
  rw [← spells.reads memory, length_load]
  refine load_congr fun i bound => write_apply_of_forall_ne _ _ _ fun entry member => ?_
  obtain ⟨j, _, here⟩ := later.inside entry member
  rw [here]
  exact block_ne injective bound

/-- The second block written before the first. -/
theorem Spells.prepend (injective : Function.Injective addr) (spells : Spells addr first front)
    (later : Spells (fun i => addr (front.length + i)) second back) :
    Spells addr (second ++ first) (front ++ back) := by
  refine ⟨fun entry member => spells.inside_append later (List.mem_append.mp member).symm,
    fun memory => ?_⟩
  rw [List.length_append, load_add, write_append, spells.reads]
  congr 1
  rw [← later.reads memory, length_load]
  refine load_congr fun i _ => write_apply_of_forall_ne _ _ _ fun entry member => ?_
  obtain ⟨j, bound, here⟩ := spells.inside entry member
  rw [here]
  exact (block_ne injective bound).symm

end Spell

/-! ### Offsets into a buffer -/

section Offsets

variable {V : Type}

/-- The address function of a block that starts at a natural offset. -/
def span (offset : ℕ) : ℕ → ℕ := fun i => offset + i

@[simp]
theorem span_apply (offset i : ℕ) : span offset i = offset + i := rfl

theorem span_injOn (offset : ℕ) (cells : Set ℕ) : Set.InjOn (span offset) cells := by
  intro a _ b _ same
  exact Nat.add_left_cancel same

theorem span_add (offset shift : ℕ) : (fun i => span offset (shift + i)) = span (offset + shift) := by
  funext i
  exact (Nat.add_assoc _ _ _).symm

/-- A part of a loaded block is the block loaded at the shifted offset. -/
theorem load_span_part (memory : ℕ → V) {offset shift count part : ℕ} (inside : shift + part ≤ count) :
    load memory (span (offset + shift)) part
      = ((load memory (span offset) count).drop shift).take part := by
  obtain ⟨rest, rfl⟩ := Nat.exists_eq_add_of_le inside
  rw [load_add, load_add, span_add, List.append_assoc, List.drop_left' (length_load _ _ _),
    List.take_left' (length_load _ _ _)]

end Offsets

/-! ### Little-endian integers -/

section LittleEndian

/-- The `width` little-endian bytes of a number, high bytes dropped. -/
def leBytes : ℕ → ℕ → List UInt8
  | 0, _ => []
  | width + 1, value => UInt8.ofNat value :: leBytes width (value / 256)

/-- The number a list of little-endian bytes stands for. -/
def leNat : List UInt8 → ℕ
  | [] => 0
  | byte :: rest => byte.toNat + 256 * leNat rest

@[simp]
theorem length_leBytes (width value : ℕ) : (leBytes width value).length = width := by
  induction width generalizing value with
  | zero => rfl
  | succ width ih => rw [leBytes, List.length_cons, ih]

/-- Reading back a fixed-width number loses exactly its high part. -/
theorem leNat_leBytes (width value : ℕ) : leNat (leBytes width value) = value % 256 ^ width := by
  induction width generalizing value with
  | zero => rw [leBytes, leNat, Nat.pow_zero, Nat.mod_one]
  | succ width ih =>
    rw [leBytes, leNat, ih, Nat.pow_succ, Nat.mul_comm (256 ^ width), Nat.mod_mul]
    rfl

theorem leNat_leBytes_of_lt {width value : ℕ} (fits : value < 256 ^ width) :
    leNat (leBytes width value) = value := by
  rw [leNat_leBytes, Nat.mod_eq_of_lt fits]

theorem leNat_lt (bytes : List UInt8) : leNat bytes < 256 ^ bytes.length := by
  induction bytes with
  | nil => exact Nat.one_pos
  | cons byte rest ih =>
    have low := byte.toNat_lt
    rw [leNat, List.length_cons, Nat.pow_succ]
    omega

/-- Bytes are those of the number they stand for. -/
theorem leBytes_leNat (bytes : List UInt8) : leBytes bytes.length (leNat bytes) = bytes := by
  induction bytes with
  | nil => rfl
  | cons byte rest ih =>
    have low := byte.toNat_lt
    have high : (byte.toNat + 256 * leNat rest) / 256 = leNat rest := by omega
    rw [List.length_cons, leNat, leBytes, high, ih]
    congr 1
    apply UInt8.toNat_inj.mp
    rw [UInt8.toNat_ofNat', Nat.add_mul_mod_self_left, Nat.mod_eq_of_lt low]

/-- The high part does not show. -/
theorem leBytes_mod (width value : ℕ) : leBytes width (value % 256 ^ width) = leBytes width value := by
  have back := leBytes_leNat (leBytes width value)
  rwa [length_leBytes, leNat_leBytes] at back

/-- The low bytes come first. -/
theorem leBytes_add (low high value : ℕ) :
    leBytes (low + high) value = leBytes low value ++ leBytes high (value / 256 ^ low) := by
  induction low generalizing value with
  | zero => simp [leBytes]
  | succ low ih =>
    rw [Nat.add_right_comm, leBytes, ih, leBytes, List.cons_append, Nat.div_div_eq_div_mul, ← Nat.pow_succ']

end LittleEndian

/-! ### Integers in a byte memory -/

section Integers

variable {memory memory' : ℕ → UInt8} {lo hi lo' hi' width width' address address' value : ℕ}

/-- The little-endian integer of `width` bytes at an address. -/
def loadNat (memory : ℕ → UInt8) (width address : ℕ) : ℕ := leNat (load memory (span address) width)

/-- An integer stored in `width` little-endian bytes, its high part dropped. -/
def storeNat (memory : ℕ → UInt8) (width address value : ℕ) : ℕ → UInt8 :=
  write memory (cells (span address) (leBytes width value))

/-- `count` bytes of one value. -/
def fill (memory : ℕ → UInt8) (address count : ℕ) (byte : UInt8) : ℕ → UInt8 := fun place =>
  if address ≤ place ∧ place < address + count then byte else memory place

/-- Nothing outside `[lo, hi)` differs. -/
def SameOutside (lo hi : ℕ) (memory memory' : ℕ → UInt8) : Prop :=
  ∀ place, place < lo ∨ hi ≤ place → memory' place = memory place

theorem loadNat_storeNat (memory : ℕ → UInt8) (width address value : ℕ) :
    loadNat (storeNat memory width address value) width address = value % 256 ^ width := by
  have back := load_write_cells memory (span address) (leBytes width value) (span_injOn address _)
  rw [length_leBytes] at back
  rw [loadNat, storeNat, back, leNat_leBytes]

theorem loadNat_lt (memory : ℕ → UInt8) (width address : ℕ) :
    loadNat memory width address < 256 ^ width := by
  have bound := leNat_lt (load memory (span address) width)
  rwa [length_load] at bound

theorem sameOutside_refl (lo hi : ℕ) (memory : ℕ → UInt8) : SameOutside lo hi memory memory :=
  fun _ _ => rfl

theorem SameOutside.trans {memory'' : ℕ → UInt8} (same : SameOutside lo hi memory memory')
    (later : SameOutside lo hi memory' memory'') : SameOutside lo hi memory memory'' := by
  intro place outside
  rw [later place outside, same place outside]

theorem SameOutside.mono (same : SameOutside lo hi memory memory') (below : lo' ≤ lo) (above : hi ≤ hi') :
    SameOutside lo' hi' memory memory' := by
  intro place outside
  exact same place (by omega)

theorem sameOutside_write (memory : ℕ → UInt8) (address : ℕ) (bytes : List UInt8) :
    SameOutside address (address + bytes.length) memory (write memory (cells (span address) bytes)) := by
  intro place outside
  refine write_cells_of_forall_ne _ _ _ _ fun i bound => ?_
  rw [span_apply]
  omega

theorem sameOutside_storeNat (memory : ℕ → UInt8) (width address value : ℕ) :
    SameOutside address (address + width) memory (storeNat memory width address value) := by
  have same := sameOutside_write memory address (leBytes width value)
  rwa [length_leBytes] at same

theorem sameOutside_fill (memory : ℕ → UInt8) (address count : ℕ) (byte : UInt8) :
    SameOutside address (address + count) memory (fill memory address count byte) := by
  intro place outside
  exact if_neg (by omega)

/-- A block away from what differs loads the same. -/
theorem SameOutside.load (same : SameOutside lo hi memory memory') {count : ℕ}
    (apart : address + count ≤ lo ∨ hi ≤ address) :
    load memory' (span address) count = load memory (span address) count := by
  refine load_congr fun i bound => same _ ?_
  rw [span_apply]
  omega

/-- An integer away from what differs reads the same. -/
theorem SameOutside.loadNat (same : SameOutside lo hi memory memory')
    (apart : address + width ≤ lo ∨ hi ≤ address) :
    loadNat memory' width address = loadNat memory width address := by
  rw [Lib.loadNat, Lib.loadNat, same.load apart]

/-- Memories that differ in one integer at most, and agree on it, are one. -/
theorem SameOutside.eq_of_loadNat (same : SameOutside address (address + width) memory memory')
    (equal : Lib.loadNat memory' width address = Lib.loadNat memory width address) : memory' = memory := by
  have bytes : Lib.load memory' (span address) width = Lib.load memory (span address) width := by
    have back := leBytes_leNat (Lib.load memory' (span address) width)
    have back' := leBytes_leNat (Lib.load memory (span address) width)
    rw [length_load] at back back'
    rw [← back, ← back']
    exact congrArg (leBytes width) equal
  funext place
  by_cases inside : address ≤ place ∧ place < address + width
  · obtain ⟨i, rfl⟩ := Nat.exists_eq_add_of_le inside.1
    have one := List.getElem_of_eq bytes (i := i) (by rw [length_load]; omega)
    rwa [getElem_load, getElem_load, span_apply] at one
  · exact same place (by omega)

end Integers

/-! ### Network order -/

section BigEndian

/-- The `width` big-endian bytes of a number. -/
def beBytes (width value : ℕ) : List UInt8 := (leBytes width value).reverse

/-- The number a list of big-endian bytes stands for. -/
def beNat (bytes : List UInt8) : ℕ := leNat bytes.reverse

@[simp]
theorem length_beBytes (width value : ℕ) : (beBytes width value).length = width := by
  rw [beBytes, List.length_reverse, length_leBytes]

theorem beNat_beBytes_of_lt {width value : ℕ} (fits : value < 256 ^ width) :
    beNat (beBytes width value) = value := by
  rw [beNat, beBytes, List.reverse_reverse, leNat_leBytes_of_lt fits]

/-- The number with the bytes of another one in reverse order. -/
def swapBytes (width value : ℕ) : ℕ := leNat (beBytes width value)

theorem swapBytes_lt (width value : ℕ) : swapBytes width value < 256 ^ width := by
  have bound := leNat_lt (beBytes width value)
  rwa [length_beBytes] at bound

/-- What lies in memory are the bytes in network order. -/
theorem leBytes_swapBytes (width value : ℕ) : leBytes width (swapBytes width value) = beBytes width value := by
  have back := leBytes_leNat (beBytes width value)
  rwa [length_beBytes] at back

theorem swapBytes_swapBytes (width value : ℕ) :
    swapBytes width (swapBytes width value) = value % 256 ^ width := by
  rw [swapBytes, beBytes, leBytes_swapBytes, beBytes, List.reverse_reverse, leNat_leBytes]

/-- A number of two halves is swapped half by half. -/
theorem swapBytes_add (width value : ℕ) : swapBytes (width + width) value
    = swapBytes width (value / 256 ^ width) + 256 ^ width * swapBytes width (value % 256 ^ width) := by
  have same : leBytes (width + width) (swapBytes width (value / 256 ^ width)
      + 256 ^ width * swapBytes width (value % 256 ^ width)) = beBytes (width + width) value := by
    have positive : 0 < 256 ^ width := Nat.pow_pos (by decide)
    have low := swapBytes_lt width (value / 256 ^ width)
    rw [leBytes_add, Nat.add_mul_div_left _ _ positive, Nat.div_eq_of_lt low, Nat.zero_add,
      leBytes_swapBytes, ← leBytes_mod width (_ + _), Nat.add_mul_mod_self_left, Nat.mod_eq_of_lt low,
      leBytes_swapBytes, beBytes, beBytes, beBytes, leBytes_add, List.reverse_append, leBytes_mod]
  have bound : swapBytes width (value / 256 ^ width)
      + 256 ^ width * swapBytes width (value % 256 ^ width) < 256 ^ (width + width) := by
    have low := swapBytes_lt width (value / 256 ^ width)
    have high := swapBytes_lt width (value % 256 ^ width)
    calc _ < 256 ^ width + 256 ^ width * swapBytes width (value % 256 ^ width) := by omega
      _ = 256 ^ width * (swapBytes width (value % 256 ^ width) + 1) := by rw [Nat.mul_add, Nat.mul_one, Nat.add_comm]
      _ ≤ 256 ^ width * 256 ^ width := Nat.mul_le_mul_left _ high
      _ = 256 ^ (width + width) := (Nat.pow_add _ _ _).symm
  rw [swapBytes, ← same, leNat_leBytes_of_lt bound]

theorem beNat_lt (bytes : List UInt8) : beNat bytes < 256 ^ bytes.length := by
  have bound := leNat_lt bytes.reverse
  rwa [List.length_reverse] at bound

end BigEndian

end Lib
