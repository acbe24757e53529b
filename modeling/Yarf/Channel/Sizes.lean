/-
**What the 32-bit size arithmetic of the queue computes.**

Everything below is read off `unlock_queue.cc` with the words turned into natural numbers.

* `packGuard_ok_iff` — the overflow guard of `Send` passes exactly when `48 + len` can be rounded up
  within 32 bits **or** has itself wrapped;
* `freeSize_eq`, `allocSize_eq` — below `2 ^ 31` the two occupancy formulas are exact; above,
  `freeSize_le` still bounds the first;
* `Room`, `Placed` — a packet is contiguous, so the end of the ring may have to be skipped; `place_ok`
  and `place_full` say that the wrap decision of `Send` is the geometric one;
* `sendPlan_ok_iff` — `Send` accepts exactly when there is room.
-/

import Mathlib.Tactic.Tauto
import Yarf.Lib.Cyclic
import Yarf.Channel.UnlockQueue

namespace Yarf.Channel

open Lib

/-! ### Rounding -/

/-- Rounding up to a multiple of eight. -/
def roundUp (n : ℕ) : ℕ := (n + 7) / 8 * 8

theorem le_roundUp (n : ℕ) : n ≤ roundUp n := by
  unfold roundUp
  omega

theorem roundUp_lt (n : ℕ) : roundUp n < n + 8 := by
  unfold roundUp
  omega

theorem nat_and_mask {n : ℕ} (bound : n < 2 ^ 32) : n &&& 4294967288 = n / 8 * 8 := by
  have shape : n / 8 * 8 = (n >>> 3) <<< 3 := by
    rw [Nat.shiftLeft_eq, Nat.shiftRight_eq_div_pow]
  rw [shape]
  refine Nat.eq_of_testBit_eq fun i => ?_
  rw [Nat.testBit_and, show 4294967288 = (2 ^ 29 - 1) <<< 3 by rfl, Nat.testBit_shiftLeft,
    Nat.testBit_shiftLeft, Nat.testBit_two_pow_sub_one, Nat.testBit_shiftRight]
  rcases Nat.lt_or_ge i 3 with low | high
  · simp [Nat.not_le.mpr low]
  · rw [show 3 + (i - 3) = i by omega]
    rcases Nat.lt_or_ge i 32 with inside | outside
    · simp [high, show i - 3 < 29 by omega]
    · rw [Nat.testBit_lt_two_pow (Nat.lt_of_lt_of_le bound (Nat.pow_le_pow_right (by omega) outside))]
      simp

/-- `GetAlignmentSize` at level `8`: the sum wraps, the mask drops the last three bits. -/
theorem toNat_getAlignmentSize (size : UInt32) :
    (getAlignmentSize size 8).toNat = (size.toNat + 7) % 2 ^ 32 / 8 * 8 := by
  rw [getAlignmentSize, if_pos rfl, UInt32.toNat_and]
  refine (nat_and_mask (UInt32.toNat_lt _)).trans ?_
  rw [UInt32.toNat_add]
  rfl

theorem toNat_packSize (len : UInt32) : (packSize len).toNat = (48 + len.toNat) % 2 ^ 32 := by
  rw [packSize, UInt32.toNat_add]
  rfl

theorem toNat_alignPackSize_eq (len : UInt32) :
    (alignPackSize len).toNat = ((48 + len.toNat) % 2 ^ 32 + 7) % 2 ^ 32 / 8 * 8 := by
  rw [alignPackSize, toNat_getAlignmentSize, toNat_packSize]

/-- Where nothing wraps, a packet takes the head and the rounded body. -/
theorem toNat_alignPackSize {len : UInt32} (fits : 48 + len.toNat + 7 < 2 ^ 32) :
    (alignPackSize len).toNat = 48 + roundUp len.toNat := by
  rw [toNat_alignPackSize_eq, roundUp]
  omega

/-- **The overflow guard.** It refuses a length whose rounding wraps, but not one that has already
wrapped when the head size was added. -/
theorem packGuard_ok_iff (len : UInt32) :
    packGuard len = .ok () ↔ 48 + len.toNat + 7 < 2 ^ 32 ∨ 2 ^ 32 ≤ 48 + len.toNat := by
  have bound := len.toNat_lt
  have aligned : alignPackSize len % kChannelAlignLevel = 0 := by
    rw [← UInt32.toNat_inj, UInt32.toNat_mod, toNat_alignPackSize_eq]
    exact Nat.mul_mod_left _ _
  have order : alignPackSize len < packSize len ↔
      ¬ (48 + len.toNat + 7 < 2 ^ 32 ∨ 2 ^ 32 ≤ 48 + len.toNat) := by
    rw [UInt32.lt_iff_toNat_lt, toNat_alignPackSize_eq, toNat_packSize]
    omega
  unfold packGuard
  by_cases passes : 48 + len.toNat + 7 < 2 ^ 32 ∨ 2 ^ 32 ≤ 48 + len.toNat
  · rw [if_neg (by simp only [aligned, order]; tauto)]
    exact iff_of_true rfl passes
  · rw [if_pos (Or.inr (order.mpr passes))]
    exact iff_of_false (fun same => by cases same) passes

theorem packGuard_cases (len : UInt32) :
    packGuard len = .ok () ∨ packGuard len = .error .kUnexpect := by
  unfold packGuard
  split
  · exact Or.inr rfl
  · exact Or.inl rfl

/-! ### Occupancy -/

section Occupancy

variable {capacity head tail : UInt32}

theorem toNat_freeSize (headLt : head.toNat < capacity.toNat) (tailLt : tail.toNat < capacity.toNat) :
    (freeSize capacity tail head).toNat
      = (capacity.toNat - tail.toNat - 1 + head.toNat) % 2 ^ 32 % capacity.toNat := by
  have capLt := capacity.toNat_lt
  rw [freeSize, UInt32.toNat_mod, UInt32.toNat_add, UInt32.toNat_sub, UInt32.toNat_sub]
  have one : (1 : UInt32).toNat = 1 := rfl
  have first : (2 ^ 32 - tail.toNat + capacity.toNat) % 2 ^ 32 = capacity.toNat - tail.toNat := by
    omega
  have second : (2 ^ 32 - 1 + (capacity.toNat - tail.toNat)) % 2 ^ 32
      = capacity.toNat - tail.toNat - 1 := by
    omega
  rw [one, first, second]

/-- Below `2 ^ 31` the free size is exact: all cells but one, less the live ones. -/
theorem freeSize_eq (small : capacity.toNat ≤ 2 ^ 31) (headLt : head.toNat < capacity.toNat)
    (tailLt : tail.toNat < capacity.toNat) :
    (freeSize capacity tail head).toNat
      = capacity.toNat - 1 - gap capacity.toNat head.toNat tail.toNat := by
  rw [toNat_freeSize headLt tailLt]
  rw [Nat.mod_eq_of_lt (by omega : capacity.toNat - tail.toNat - 1 + head.toNat < 2 ^ 32)]
  rcases Nat.lt_or_ge tail.toNat head.toNat with order | order
  · rw [gap_of_lt order headLt, Nat.mod_eq_sub_mod (by omega), Nat.mod_eq_of_lt (by omega)]
    omega
  · rw [gap_of_le order tailLt, Nat.mod_eq_of_lt (by omega)]
    omega

/-- At any capacity the free size is never too large. -/
theorem freeSize_le (headLt : head.toNat < capacity.toNat) (tailLt : tail.toNat < capacity.toNat) :
    (freeSize capacity tail head).toNat
      ≤ capacity.toNat - 1 - gap capacity.toNat head.toNat tail.toNat := by
  have capLt := capacity.toNat_lt
  rw [toNat_freeSize headLt tailLt]
  rcases Nat.lt_or_ge tail.toNat head.toNat with order | order
  · rw [gap_of_lt order headLt]
    rcases Nat.lt_or_ge (capacity.toNat - tail.toNat - 1 + head.toNat) (2 ^ 32) with small | large
    · rw [Nat.mod_eq_of_lt small, Nat.mod_eq_sub_mod (by omega), Nat.mod_eq_of_lt (by omega)]
      omega
    · -- the sum has wrapped: the result is short by `2 ^ 32 - capacity`
      rw [Nat.mod_eq_sub_mod large, Nat.mod_eq_of_lt (by omega), Nat.mod_eq_of_lt (by omega)]
      omega
  · rw [gap_of_le order tailLt, Nat.mod_eq_of_lt (by omega), Nat.mod_eq_of_lt (by omega)]
    omega

theorem allocSize_eq (small : capacity.toNat ≤ 2 ^ 31) (headLt : head.toNat < capacity.toNat)
    (tailLt : tail.toNat < capacity.toNat) :
    (allocSize capacity head tail).toNat = gap capacity.toNat head.toNat tail.toNat := by
  rw [allocSize, gap, UInt32.toNat_mod, UInt32.toNat_sub, UInt32.toNat_add]
  congr 1
  omega

end Occupancy

/-! ### The wrap decision -/

/-- The cells `Send` must skip so that a packet of `size` bytes at `t` does not cross the end. -/
def skipFor (C t size : ℕ) : ℕ := if t + size ≤ C then 0 else C - t

/-- There is room for a packet: live cells, skipped cells and packet leave one cell over. -/
def Room (C h t size : ℕ) : Prop := gap C h t + skipFor C t size + size < C

/-- A placed packet: it starts `skip` cells after the tail, does not cross the end, and the skipped
cells carry a place-holder exactly when one fits. -/
structure Placed (C t size skip : ℕ) (at_ : Place) : Prop where
  start : at_.curTail.toNat = slot C t skip
  inside : at_.curTail.toNat + size ≤ C
  skipped : skip = 0 ∧ at_.placeHold = none ∨
    t + skip = C ∧ skip < 48 ∧ at_.placeHold = none ∨
    t + skip = C ∧ 48 ≤ skip ∧ ∃ offset, at_.placeHold = some offset ∧ offset.toNat = t

theorem toNat_kPackHeadSize : kPackHeadSize.toNat = 48 := rfl

section Decision

variable {capacity head tail size : UInt32}

theorem toNat_capacity_sub (tailLt : tail.toNat < capacity.toNat) :
    (capacity - tail).toNat = capacity.toNat - tail.toNat :=
  UInt32.toNat_sub_of_le _ _ (UInt32.le_iff_toNat_le.mpr tailLt.le)

/-- With enough free cells and room at one end, `Send` places the packet. -/
theorem place_ok (headLt : head.toNat < capacity.toNat) (tailLt : tail.toNat < capacity.toNat)
    (room : Room capacity.toNat head.toNat tail.toNat size.toNat) :
    ∃ at_, place capacity tail head size = .ok at_ ∧
      Placed capacity.toNat tail.toNat size.toNat
        (skipFor capacity.toNat tail.toNat size.toNat) at_ := by
  have rest := toNat_capacity_sub tailLt
  unfold Room at room
  unfold place
  simp only [ge_iff_le, UInt32.le_iff_toNat_le, UInt32.lt_iff_toNat_lt, rest, toNat_kPackHeadSize]
  by_cases order : head.toNat ≤ tail.toNat
  · rw [gap_of_le order tailLt] at room
    rw [if_pos order]
    by_cases fits : tail.toNat + size.toNat ≤ capacity.toNat
    · rw [if_neg (by omega)]
      refine ⟨_, rfl, ?_, fits, ?_⟩
      · rw [skipFor, if_pos fits, slot_zero tailLt]
      · rw [skipFor, if_pos fits]
        exact Or.inl ⟨rfl, rfl⟩
    · have wraps : skipFor capacity.toNat tail.toNat size.toNat = capacity.toNat - tail.toNat :=
        if_neg fits
      rw [wraps] at room
      have atZero : slot capacity.toNat tail.toNat (capacity.toNat - tail.toNat) = 0 := by
        rw [slot_of_le (by omega) (by omega)]
        omega
      rw [if_pos (by omega), if_neg (by omega), wraps]
      by_cases short : capacity.toNat - tail.toNat < 48
      · rw [if_pos short]
        refine ⟨_, rfl, atZero.symm, ?_, Or.inr (Or.inl ⟨by omega, short, rfl⟩)⟩
        show 0 + size.toNat ≤ capacity.toNat
        omega
      · rw [if_neg short]
        refine ⟨_, rfl, atZero.symm, ?_, Or.inr (Or.inr ⟨by omega, by omega, tail, rfl, rfl⟩)⟩
        show 0 + size.toNat ≤ capacity.toNat
        omega
  · rw [gap_of_lt (by omega) headLt] at room
    rw [if_neg order]
    have fits : tail.toNat + size.toNat ≤ capacity.toNat := by omega
    refine ⟨_, rfl, ?_, fits, ?_⟩
    · rw [skipFor, if_pos fits, slot_zero tailLt]
    · rw [skipFor, if_pos fits]
      exact Or.inl ⟨rfl, rfl⟩

/-- Without room, enough free cells do not help: `Send` reports a full queue. -/
theorem place_full (headLt : head.toNat < capacity.toNat) (tailLt : tail.toNat < capacity.toNat)
    (free : gap capacity.toNat head.toNat tail.toNat + size.toNat < capacity.toNat)
    (crowded : ¬ Room capacity.toNat head.toNat tail.toNat size.toNat) :
    place capacity tail head size = .error .kChanFull := by
  have rest := toNat_capacity_sub tailLt
  unfold Room skipFor at crowded
  unfold place
  simp only [ge_iff_le, UInt32.le_iff_toNat_le, UInt32.lt_iff_toNat_lt, rest]
  by_cases order : head.toNat ≤ tail.toNat
  · rw [gap_of_le order tailLt] at free crowded
    have crosses : ¬ tail.toNat + size.toNat ≤ capacity.toNat := fun fits => by
      rw [if_pos fits] at crowded
      omega
    rw [if_neg crosses] at crowded
    rw [if_pos order, if_pos (by omega), if_pos (by omega)]
  · rw [gap_of_lt (by omega) headLt] at free crowded
    rw [if_pos (by omega)] at crowded
    omega

end Decision

/-! ### The decision of `Send` -/

section Plan

variable {capacity head curHead tail len : UInt32}

theorem sendSize_ok (sized : sendSize capacity tail head len = .ok ()) :
    packGuard len = .ok () ∧ ¬ freeSize capacity tail head < alignPackSize len := by
  unfold sendSize at sized
  rcases packGuard_cases len with passes | refused
  · rw [passes] at sized
    by_cases free : freeSize capacity tail head < alignPackSize len
    · rw [if_pos free] at sized
      cases sized
    · exact ⟨passes, free⟩
  · rw [refused] at sized
    cases sized

/-- A plan is made only when the sizes passed and the placement succeeded. -/
theorem sendPlan_ok {at_ : Place} (planned : sendPlan capacity tail head curHead len = .ok at_) :
    sendSize capacity tail head len = .ok () ∧
      place capacity tail curHead (alignPackSize len) = .ok at_ := by
  unfold sendPlan at planned
  cases sized : sendSize capacity tail head len with
  | error err =>
    rw [sized] at planned
    cases planned
  | ok _ =>
    rw [sized] at planned
    exact ⟨rfl, planned⟩

/-- A size that passed, at any capacity: enough cells are free. -/
theorem free_of_sendSize_ok (headLt : head.toNat < capacity.toNat)
    (tailLt : tail.toNat < capacity.toNat) (sized : sendSize capacity tail head len = .ok ()) :
    gap capacity.toNat head.toNat tail.toNat + (alignPackSize len).toNat < capacity.toNat := by
  obtain ⟨_, free⟩ := sendSize_ok sized
  have bound := freeSize_le headLt tailLt
  have within := gap_lt head.toNat tail.toNat (by omega : 0 < capacity.toNat)
  rw [UInt32.lt_iff_toNat_lt] at free
  omega

/-- Where enough cells are free, a placement is the geometric one. -/
theorem placed_of_place_ok {size : UInt32} {at_ : Place} (headLt : head.toNat < capacity.toNat)
    (tailLt : tail.toNat < capacity.toNat)
    (free : gap capacity.toNat head.toNat tail.toNat + size.toNat < capacity.toNat)
    (placed : place capacity tail head size = .ok at_) :
    Room capacity.toNat head.toNat tail.toNat size.toNat ∧
      Placed capacity.toNat tail.toNat size.toNat
        (skipFor capacity.toNat tail.toNat size.toNat) at_ := by
  by_cases room : Room capacity.toNat head.toNat tail.toNat size.toNat
  · obtain ⟨found, same, geometry⟩ := place_ok headLt tailLt room
    rw [same] at placed
    cases placed
    exact ⟨room, geometry⟩
  · rw [place_full headLt tailLt free room] at placed
    cases placed

/-- An accepted message has been placed where there is room for the size `Send` computed. -/
theorem placed_of_sendPlan_ok {at_ : Place} (headLt : head.toNat < capacity.toNat)
    (tailLt : tail.toNat < capacity.toNat)
    (planned : sendPlan capacity tail head head len = .ok at_) :
    Room capacity.toNat head.toNat tail.toNat (alignPackSize len).toNat ∧
      Placed capacity.toNat tail.toNat (alignPackSize len).toNat
        (skipFor capacity.toNat tail.toNat (alignPackSize len).toNat) at_ := by
  obtain ⟨sized, placed⟩ := sendPlan_ok planned
  exact placed_of_place_ok headLt tailLt (free_of_sendSize_ok headLt tailLt sized) placed

/-- **Acceptance.** Up to `2 ^ 31` a message whose size does not wrap is accepted exactly when there
is room for it; otherwise the queue is reported full. -/
theorem sendPlan_ok_iff (small : capacity.toNat ≤ 2 ^ 31) (headLt : head.toNat < capacity.toNat)
    (tailLt : tail.toNat < capacity.toNat) (fits : 48 + len.toNat + 7 < 2 ^ 32) :
    (∃ at_, sendPlan capacity tail head head len = .ok at_) ↔
      Room capacity.toNat head.toNat tail.toNat (48 + roundUp len.toNat) := by
  rw [← toNat_alignPackSize fits]
  constructor
  · rintro ⟨at_, planned⟩
    exact (placed_of_sendPlan_ok headLt tailLt planned).1
  · intro room
    obtain ⟨at_, same, _⟩ := place_ok headLt tailLt room
    have passes := (packGuard_ok_iff len).mpr (Or.inl fits)
    have exact_ := freeSize_eq small headLt tailLt
    have sized : sendSize capacity tail head len = .ok () := by
      unfold sendSize
      rw [passes]
      refine if_neg ?_
      unfold Room at room
      rw [UInt32.lt_iff_toNat_lt, exact_]
      omega
    refine ⟨at_, ?_⟩
    rw [sendPlan, sized]
    exact same

theorem sendPlan_error (fits : 48 + len.toNat + 7 < 2 ^ 32) {err : Err}
    (refused : sendPlan capacity tail head curHead len = .error err) : err = .kChanFull := by
  unfold sendPlan sendSize at refused
  rw [(packGuard_ok_iff len).mpr (Or.inl fits)] at refused
  simp only at refused
  unfold place at refused
  dsimp only at refused
  split_ifs at refused <;> cases refused <;> rfl

end Plan

end Yarf.Channel
