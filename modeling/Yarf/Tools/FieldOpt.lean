/-
**The size annotation of a field** (`find_field_opt` in `proto2bin.py` and `proto2obj4pb.py`).

The lines of a message, from its own on, are searched for the letters of the field's name. The last line in front
of the next message's is not among them, the message's own line is.

* `annotated_iff` — what is read from a line;
* `findIn_spec` — what is found in a range of lines;
* `Declares.opened` — a field's message is one of those that have begun;
* `attribution_iff` — which fields get their own annotation.
-/

import Yarf.Tools.ReadProto

namespace Yarf.Tools

open Lib

/-! ### The program -/

/-- The loop of `find_field_opt` over some line numbers: nothing, or the size and whether it has the key option -/
def findIn (fieldName : Text) (fileLines : List Text) : List ℕ → Except ProtoFault (Option (Text × Bool))
  | [] => .ok none
  | lineNo :: rest =>
    match fileLines[lineNo]? with
    | none => .error .indexError
    | some line =>
      if line = [] then findIn fieldName fileLines rest
      else if find fieldName line = none then findIn fieldName fileLines rest
      else match find genKeyword line with
        | none => .ok none
        | some idx =>
          match (line.drop (idx + genKeyword.length)).splitOn '|' with
          | max :: opt :: _ => .ok (some (max, decide (opt = genKeyopt)))
          | _ => .error .indexError

/-- `find_field_opt(class_name, field_name, file_lines, struct_dict)` -/
def findFieldOpt (className fieldName : Text) (fileLines : List Text) (structDict : Dict) :
    Except ProtoFault (Option (Text × Bool)) :=
  match structDict className with
  | none => .error .keyError
  | some [] => .ok none
  | some [_] => .error .indexError
  | some (startline :: endline :: _) =>
    findIn fieldName fileLines (List.range' (startline - 1) (endline - 1 - (startline - 1)))

/-- `find_field_opt` on what `read_proto` returns -/
def fieldOpt (text className fieldName : Text) : Except ProtoFault (Option (Text × Bool)) := do
  let (fileLines, structDict, _) ← readProto text
  findFieldOpt className fieldName fileLines structDict

/-! ### What the text says -/

/-- The messages that are open, the innermost first, behind a line. -/
def afterLine (opened : List Text) (line : ProtoLine) : List Text :=
  ((line.msgName.toList ++ opened.drop line.endsBefore)).drop line.endsAfter

/-- The `i`-th line declares the field in the innermost message that is open there. -/
def Declares (lines : List ProtoLine) (i : ℕ) (className fieldName max : Text) (key : Bool) : Prop :=
  ∃ line, lines[i]? = some line ∧ line.content = .field fieldName max key ∧
    (((lines.take i).foldl afterLine []).drop line.endsBefore).head? = some className

/-- **Where a field gets the annotation**: the letters of its name stand in some line from the message's own to the
last but one in front of the next message's, and the first such line has this annotation. -/
def Attributed (lines : List ProtoLine) (className fieldName max : Text) (key : Bool) : Prop :=
  ∃ first next, IsSpan lines className first next ∧ ∃ i, first ≤ i ∧ i + 1 < next ∧
    ∃ line, lines[i]? = some line ∧ fieldName <:+: line.text ∧ Annotated line.text max key ∧
      ∀ j, first ≤ j → j < i → ∀ line, lines[j]? = some line → ¬fieldName <:+: line.text

/-! ### A line -/

section Line

variable {line fieldName max : Text} {key : Bool}

/-- **The annotation of a line.** -/
theorem annotated_iff : Annotated line max key ↔ ∃ idx, find genKeyword line = some idx ∧
    ∃ opt more, (line.drop (idx + genKeyword.length)).splitOn '|' = max :: opt :: more ∧
      key = decide (opt = genKeyopt) := by
  constructor
  · rintro ⟨decl, rest, text, first, clear, option⟩
    rw [text] at first
    refine ⟨decl.length, ?_, rest.takeWhile (· ≠ '|'), ?_⟩
    · rw [text]
      exact find_append first
    · rw [text, ← List.drop_drop, List.drop_left, List.drop_left]
      obtain ⟨more, pieces⟩ := splitOn_eq_cons.mpr ⟨clear, rest, rfl, rfl⟩
      exact ⟨more, pieces, option⟩
  · rintro ⟨idx, found, opt, more, pieces, option⟩
    obtain ⟨within, begins, first⟩ := find_eq_some_iff.mp found
    obtain ⟨clear, rest, behind, opt_eq⟩ := splitOn_eq_cons.mp ⟨more, pieces⟩
    have whole : line = line.take idx ++ (genKeyword ++ (max ++ '|' :: rest)) := by
      obtain ⟨tail, split⟩ := begins
      have same : tail = line.drop (idx + genKeyword.length) := by
        rw [← List.drop_drop, ← split, List.drop_left]
      rw [← behind, ← same, split, List.take_append_drop]
    refine ⟨line.take idx, rest, whole, ?_, clear, opt_eq ▸ option⟩
    rw [List.length_take, Nat.min_eq_left within]
    exact first

theorem annotated_of_find {idx : ℕ} (found : find genKeyword line = some idx) : Annotated line max key ↔
    ∃ opt more, (line.drop (idx + genKeyword.length)).splitOn '|' = max :: opt :: more ∧
      key = decide (opt = genKeyopt) := by
  rw [annotated_iff, found]
  constructor
  · rintro ⟨idx', same, pieces⟩
    rwa [Option.some.inj same]
  · exact fun pieces => ⟨idx, rfl, pieces⟩

theorem readLines_ne_nil (text : Text) : ∀ line ∈ readLines text, line ≠ [] := by
  induction text with
  | nil => exact fun line member => absurd member List.not_mem_nil
  | cons c rest ih =>
    intro line member
    unfold readLines at member
    split_ifs at member
    · rcases List.mem_cons.mp member with same | later
      · rw [same]
        exact List.cons_ne_nil _ _
      · exact ih line later
    · split at member
      · rw [List.mem_singleton.mp member]
        exact List.cons_ne_nil _ _
      · next front lines read =>
        rcases List.mem_cons.mp member with same | later
        · rw [same]
          exact List.cons_ne_nil _ _
        · exact ih line (read ▸ List.mem_cons_of_mem _ later)

end Line

/-! ### A range of lines -/

section Range

variable {lines : List ProtoLine} {className fieldName max text : Text} {key : Bool} {a count first next i : ℕ}

/-- The line that has the letters of the name decides. -/
theorem findIn_of_named {line : ProtoLine} (here : lines[a]? = some line) (filled : line.text ≠ [])
    (named : fieldName <:+: line.text) (rest : List ℕ) :
    findIn fieldName (lines.map ProtoLine.text) (a :: rest) = .ok (some (max, key)) ↔
      Annotated line.text max key := by
  have text : (lines.map ProtoLine.text)[a]? = some line.text := by
    rw [List.getElem?_map, here]
    rfl
  unfold findIn
  rw [text]
  dsimp only
  rw [if_neg filled, if_neg fun none => find_eq_none_iff.mp none named]
  cases found : find genKeyword line.text with
  | none =>
    refine iff_of_false (fun wrong => by cases wrong) fun annotated => ?_
    obtain ⟨idx, some, -⟩ := annotated_iff.mp annotated
    rw [found] at some
    cases some
  | some idx =>
    rw [annotated_of_find found]
    dsimp only
    generalize (line.text.drop (idx + genKeyword.length)).splitOn '|' = pieces
    match pieces with
    | [] => simp
    | [_] => simp
    | _ :: _ :: _ => simp [eq_comm]

/-- A line that does not have them is passed over. -/
theorem findIn_of_not_named {line : ProtoLine} (here : lines[a]? = some line) (filled : line.text ≠ [])
    (absent : ¬fieldName <:+: line.text) (rest : List ℕ) :
    findIn fieldName (lines.map ProtoLine.text) (a :: rest)
      = findIn fieldName (lines.map ProtoLine.text) rest := by
  have text : (lines.map ProtoLine.text)[a]? = some line.text := by
    rw [List.getElem?_map, here]
    rfl
  conv_lhs => unfold findIn
  rw [text]
  dsimp only
  rw [if_neg filled, if_pos (find_eq_none_iff.mpr absent)]

/-- **What is found in a range of lines.** -/
theorem findIn_spec (filled : ∀ line ∈ lines, line.text ≠ []) (within : a + count ≤ lines.length) :
    findIn fieldName (lines.map ProtoLine.text) (List.range' a count) = .ok (some (max, key)) ↔
      ∃ i, a ≤ i ∧ i < a + count ∧ ∃ line, lines[i]? = some line ∧ fieldName <:+: line.text ∧
        Annotated line.text max key ∧
          ∀ j, a ≤ j → j < i → ∀ line, lines[j]? = some line → ¬fieldName <:+: line.text := by
  induction count generalizing a with
  | zero =>
    refine iff_of_false (fun found => ?_) fun ⟨i, above, below, _⟩ => by omega
    cases found
  | succ count ih =>
    obtain ⟨line, here⟩ : ∃ line, lines[a]? = some line := ⟨_, List.getElem?_eq_getElem (by omega)⟩
    have some' : line.text ≠ [] := filled line (List.mem_of_getElem? here)
    rw [List.range'_succ]
    by_cases named : fieldName <:+: line.text
    · rw [findIn_of_named here some' named]
      constructor
      · intro annotated
        exact ⟨a, le_rfl, by omega, line, here, named, annotated, fun j above below => by omega⟩
      · rintro ⟨i, above, -, other, there, -, annotated, none⟩
        rcases Nat.eq_or_lt_of_le above with same | later
        · rw [← same, here] at there
          rw [Option.some.inj there]
          exact annotated
        · exact absurd named (none a le_rfl later line here)
    · rw [findIn_of_not_named here some' named, ih (by omega)]
      constructor
      · rintro ⟨i, above, below, other, there, inside, annotated, none⟩
        refine ⟨i, by omega, by omega, other, there, inside, annotated, fun j from' before l l_eq => ?_⟩
        rcases Nat.eq_or_lt_of_le from' with same | later
        · rw [← same, here] at l_eq
          rw [← Option.some.inj l_eq]
          exact named
        · exact none j later before l l_eq
      · rintro ⟨i, above, below, other, there, inside, annotated, none⟩
        rcases Nat.eq_or_lt_of_le above with same | later
        · rw [← same, here] at there
          rw [← Option.some.inj there] at inside
          exact absurd inside named
        · exact ⟨i, later, by omega, other, there, inside, annotated,
            fun j from' before => none j (by omega) before⟩

/-- Every message has its lines. -/
theorem exists_span (starts : messageAt lines first = some className) :
    ∃ next, IsSpan lines className first next := by
  classical
  have below := messageAt_lt starts
  have somewhere : ∃ n, first < n ∧ (n = lines.length ∨ messageAt lines n ≠ none) :=
    ⟨lines.length, below, .inl rfl⟩
  obtain ⟨before, ends⟩ := Nat.find_spec somewhere
  refine ⟨Nat.find somewhere, starts, before, Nat.find_min' somewhere ⟨below, .inl rfl⟩, fun i after early => ?_,
    fun inside => ends.resolve_left inside.ne⟩
  by_contra some
  exact Nat.find_min somewhere early ⟨after, .inr some⟩

/-- What is open is a message that has begun. -/
theorem mem_opened (done : List ProtoLine) :
    ∀ name ∈ done.foldl afterLine [], ∃ i, messageAt done i = some name := by
  induction done using List.reverseRecOn with
  | nil => exact fun name member => absurd member List.not_mem_nil
  | append_singleton done line ih =>
    intro name member
    rw [List.foldl_append, List.foldl_cons, List.foldl_nil] at member
    rcases List.mem_append.mp (List.mem_of_mem_drop member) with new | old
    · exact ⟨done.length, messageAt_last.trans (Option.mem_toList.mp new)⟩
    · obtain ⟨i, starts⟩ := ih name (List.mem_of_mem_drop old)
      exact ⟨i, (messageAt_append (messageAt_lt starts)).trans starts⟩

/-- The message of a field has begun in front of it. -/
theorem Declares.opened (declares : Declares lines i className fieldName max key) :
    ∃ first < i, messageAt lines first = some className := by
  obtain ⟨line, -, -, innermost⟩ := declares
  have member := List.mem_of_mem_drop (List.mem_of_mem_head? innermost)
  obtain ⟨first, starts⟩ := mem_opened _ _ member
  have below := messageAt_lt starts
  refine ⟨first, below.trans_le (List.length_take_le _ _), ?_⟩
  rw [← List.take_append_drop i lines, messageAt_append below, starts]

/-- The lines that are searched. -/
theorem fieldOpt_eq (described : Described text lines) (single : ∀ line ∈ lines, line.Single)
    (span : IsSpan lines className first next) : fieldOpt text className fieldName
      = findIn fieldName (lines.map ProtoLine.text) (List.range' first (next - 1 - first)) := by
  obtain ⟨dict, parseInstruct, read, numbers⟩ := readProto_spec described single span.starts
  have call : fieldOpt text className fieldName
      = findFieldOpt className fieldName (lines.map ProtoLine.text) dict := by
    unfold fieldOpt
    rw [read]
    rfl
  rw [call]
  unfold findFieldOpt
  rw [numbers _ _ _ span]
  dsimp only
  rw [Nat.add_sub_cancel]

end Range

/-- **Attribution.** A field gets the annotation of its own line exactly when no line has the keyword twice and the
first line searched that has the letters of its name has that annotation. -/
theorem attribution_iff {text : Text} {lines : List ProtoLine} (described : Described text lines) {i : ℕ}
    {className fieldName max : Text} {key : Bool} (declares : Declares lines i className fieldName max key) :
    fieldOpt text className fieldName = .ok (some (max, key)) ↔
      (∀ line ∈ lines, line.Single) ∧ Attributed lines className fieldName max key := by
  have filled : ∀ line ∈ lines, line.text ≠ [] := by
    intro line member
    refine readLines_ne_nil text _ ?_
    rw [described.read]
    exact List.mem_map_of_mem member
  have searched : ∀ {first next}, IsSpan lines className first next → (∀ line ∈ lines, line.Single) →
      (fieldOpt text className fieldName = .ok (some (max, key)) ↔ ∃ i, first ≤ i ∧ i + 1 < next ∧
        ∃ line, lines[i]? = some line ∧ fieldName <:+: line.text ∧ Annotated line.text max key ∧
          ∀ j, first ≤ j → j < i → ∀ line, lines[j]? = some line → ¬fieldName <:+: line.text) := by
    intro first next span single
    have before := span.before
    have within := span.within
    have bound : ∀ i, i < first + (next - 1 - first) ↔ i + 1 < next := by omega
    rw [fieldOpt_eq described single span, findIn_spec filled (by omega)]
    simp only [bound]
  constructor
  · intro found
    have single : ∀ line ∈ lines, line.Single := by
      cases read : readProto text with
      | error fault =>
        unfold fieldOpt at found
        rw [read] at found
        cases found
      | ok result => exact readProto_single described.read read
    obtain ⟨first, -, starts⟩ := declares.opened
    obtain ⟨next, span⟩ := exists_span starts
    exact ⟨single, first, next, span, (searched span single).mp found⟩
  · rintro ⟨single, first, next, span, found⟩
    exact (searched span single).mpr found

/-- A message with two fields, the name of one in front of the other's. -/
def bagLines : List ProtoLine :=
  [⟨"message Bag \x7b\n".toList, 0, .message "Bag".toList, 0⟩,
    ⟨"  repeated uint32 items_left = 1; // |gen|max|5|\n".toList, 0,
      .field "items_left".toList "5".toList false, 0⟩,
    ⟨"  repeated uint32 items = 2; // |gen|max|9|keyopt|\n".toList, 0, .field "items".toList "9".toList true, 0⟩,
    ⟨"\x7d\n".toList, 1, .other, 0⟩]

def bagText : Text := (bagLines.map ProtoLine.text).flatten

theorem bag_annotated : Annotated "  repeated uint32 items_left = 1; // |gen|max|5|\n".toList "5".toList false ∧
    Annotated "  repeated uint32 items = 2; // |gen|max|9|keyopt|\n".toList "9".toList true := by
  constructor
  · exact annotated_iff.mpr ⟨37, by decide +kernel, "\n".toList, [], by decide +kernel, by decide⟩
  · exact annotated_iff.mpr ⟨32, by decide +kernel, "keyopt".toList, ["\n".toList], by decide +kernel, by decide⟩

theorem bag_shaped : ∀ line ∈ bagLines, line.Shaped := by
  intro line member
  unfold bagLines at member
  simp only [List.mem_cons, List.not_mem_nil, or_false] at member
  rcases member with rfl | rfl | rfl | rfl
  · exact ⟨[], " ".toList, " \x7b\n".toList, by decide, List.all_eq_true.mp (by decide), by decide⟩
  · exact ⟨by decide +kernel, bag_annotated.1, by decide +kernel⟩
  · exact ⟨by decide +kernel, bag_annotated.2, by decide +kernel⟩
  · exact (by decide +kernel : ¬keywordMsg <:+: "\x7d\n".toList)

theorem bag_described : Described bagText bagLines := by
  have read : readLines bagText = bagLines.map ProtoLine.text := by decide +kernel
  have only : ∀ i name, messageAt bagLines i = some name → i = 0 := by
    intro i name starts
    by_contra later
    obtain ⟨line, here, starts⟩ := Option.bind_eq_some_iff.mp starts
    have member : line ∈ bagLines.tail := by
      obtain ⟨j, rfl⟩ := Nat.exists_eq_succ_of_ne_zero later
      have behind : bagLines.tail[j]? = some line := List.getElem?_tail.trans here
      exact List.mem_of_getElem? behind
    unfold bagLines at member
    simp only [List.tail_cons, List.mem_cons, List.not_mem_nil, or_false] at member
    rcases member with rfl | rfl | rfl <;> cases starts
  refine ⟨read, bag_shaped, fun i j name here there => ?_⟩
  rw [only i name here, only j name there]

theorem bag_declares : Declares bagLines 1 "Bag".toList "items_left".toList "5".toList false ∧
    Declares bagLines 2 "Bag".toList "items".toList "9".toList true :=
  ⟨⟨_, rfl, rfl, by decide⟩, ⟨_, rfl, rfl, by decide⟩⟩

/-- The field with the longer name gets its size. -/
theorem attribution_iff_left :
    fieldOpt bagText "Bag".toList "items_left".toList = .ok (some ("5".toList, false)) := by
  have read : (readProto bagText).isOk := by decide +kernel
  have single : ∀ line ∈ bagLines, line.Single := by
    cases result : readProto bagText with
    | error fault =>
      rw [result] at read
      cases read
    | ok result' => exact readProto_single bag_described.read result
  have span : IsSpan bagLines "Bag".toList 0 4 :=
    ⟨rfl, by decide, by decide, fun i after below => by interval_cases i <;> rfl,
      fun wrong => absurd wrong (by decide)⟩
  obtain ⟨line, here, text⟩ : ∃ line, bagLines[1]? = some line ∧
      line.text = "  repeated uint32 items_left = 1; // |gen|max|5|\n".toList := ⟨_, rfl, rfl⟩
  have named : "items_left".toList <:+: line.text := by
    rw [text]
    decide +kernel
  have annotated : Annotated line.text "5".toList false := text ▸ bag_annotated.1
  refine (attribution_iff bag_described bag_declares.1).mpr
    ⟨single, 0, 4, span, 1, by decide, by decide, line, here, named, annotated, ?_⟩
  intro j _ before line' first
  obtain rfl := Nat.lt_one_iff.mp before
  rw [← Option.some.inj first]
  decide +kernel

/-- The other gets that size as well, and not its own. -/
theorem attribution_fails_contained : Described bagText bagLines ∧
    Declares bagLines 2 "Bag".toList "items".toList "9".toList true ∧
    fieldOpt bagText "Bag".toList "items".toList = .ok (some ("5".toList, false)) :=
  ⟨bag_described, bag_declares.2, by decide +kernel⟩

end Yarf.Tools
