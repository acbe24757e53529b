/-
**Positions on a ring.**

A ring of `C` cells is walked from a position `h < C`: `slot C h i` is the `i`-th cell after `h`,
and `gap C h t` is the number of cells from `h` up to `t`, in walking order. Offsets below `C` name
distinct cells (`slot_inj`), and `slot` and `gap` are inverse to each other (`slot_gap`,
`gap_slot`).
-/

import Mathlib.Data.Nat.ModEq

namespace Lib

section Cyclic

variable {C h t i j n : ℕ}

/-- The `i`-th cell after `h`. -/
def slot (C h i : ℕ) : ℕ := (h + i) % C

/-- The number of cells from `h` up to `t`. -/
def gap (C h t : ℕ) : ℕ := (t + C - h) % C

theorem slot_lt (h i : ℕ) (positive : 0 < C) : slot C h i < C := Nat.mod_lt _ positive

theorem gap_lt (h t : ℕ) (positive : 0 < C) : gap C h t < C := Nat.mod_lt _ positive

/-- Before the end of the ring no wrap takes place. -/
theorem slot_of_lt (inside : h + i < C) : slot C h i = h + i := Nat.mod_eq_of_lt inside

/-- Past the end of the ring the walk goes on at cell `0`. -/
theorem slot_of_le (past : C ≤ h + i) (once : h + i < 2 * C) : slot C h i = h + i - C := by
  rw [slot, Nat.mod_eq_sub_mod past, Nat.mod_eq_of_lt (by omega)]

theorem slot_zero (inside : h < C) : slot C h 0 = h := slot_of_lt (by omega)

theorem slot_slot (C h i j : ℕ) : slot C (slot C h i) j = slot C h (i + j) := by
  simp only [slot, Nat.mod_add_mod, Nat.add_assoc]

theorem slot_inj (iLt : i < C) (jLt : j < C) (same : slot C h i = slot C h j) : i = j := by
  have key : i % C = j % C := Nat.ModEq.add_left_cancel' h same
  rwa [Nat.mod_eq_of_lt iLt, Nat.mod_eq_of_lt jLt] at key

theorem gap_of_le (order : h ≤ t) (inside : t < C) : gap C h t = t - h := by
  rw [gap, show t + C - h = (t - h) + C by omega, Nat.add_mod_right, Nat.mod_eq_of_lt (by omega)]

theorem gap_of_lt (order : t < h) (inside : h < C) : gap C h t = t + C - h :=
  Nat.mod_eq_of_lt (by omega)

theorem gap_self (inside : h < C) : gap C h h = 0 := by
  rw [gap_of_le le_rfl inside, Nat.sub_self]

theorem slot_gap (hLt : h < C) (tLt : t < C) : slot C h (gap C h t) = t := by
  rcases Nat.lt_or_ge t h with order | order
  · rw [gap_of_lt order hLt, slot_of_le (by omega) (by omega)]
    omega
  · rw [gap_of_le order tLt, slot_of_lt (by omega)]
    omega

theorem gap_slot (hLt : h < C) (nLt : n < C) : gap C h (slot C h n) = n :=
  slot_inj (gap_lt _ _ (by omega)) nLt
    (slot_gap hLt (slot_lt _ _ (by omega)))

end Cyclic

end Lib
