/-
**From a `.proto` text to the generated files** (`handle_proto`).

What `protoc` says of the file is a parameter. The sizes and the key option are read from the text, which `protoc` does
not pass on.

* `instructLines`, `readProto_instruct` — the instructions at the head of the text;
* `found_of_attributed` — what is found for a field is what stands behind it;
* `handleProto_writes` — every size in the generated files is the one its field is annotated with.
-/

import Yarf.Tools.GenProgram

namespace Yarf.Tools

open Lib

/-! ### Instructions -/

def beginsGen (line : Text) : Bool := decide ("//gen_begin".toList <+: lstrip line)

def endsGen (line : Text) : Bool := decide ("//gen_end".toList <+: lstrip line)

/-- The line that begins the instructions, and those behind it up to the one that ends them. -/
def instructLines : List Text → List Text
  | [] => []
  | line :: lines =>
    if beginsGen line then lstrip line :: (lines.takeWhile fun line => !endsGen line).map lstrip
    else instructLines lines

section Instruct

variable {scan scan' : Scan} {line : Text} {lines : List Text}

theorem find_eq_zero {word text : Text} : find word text = some 0 ↔ word <+: text := by
  rw [find_eq_some_iff]
  simp

/-- What the instructions are when the lines are read from here on. -/
def Scan.instructs (scan : Scan) (lines : List Text) : List Text :=
  scan.parseInstruct ++
    if scan.parseEnd then [] else if scan.parseBegin then (lines.takeWhile fun line => !endsGen line).map lstrip
    else instructLines lines

theorem genInstruct_instructs : (scan.genInstruct line).instructs lines = scan.instructs (line :: lines) := by
  have begins : find "//gen_begin".toList (lstrip line) = some 0 ↔ beginsGen line :=
    find_eq_zero.trans decide_eq_true_iff.symm
  have ends : find "//gen_end".toList (lstrip line) = some 0 ↔ endsGen line :=
    find_eq_zero.trans decide_eq_true_iff.symm
  unfold Scan.genInstruct
  by_cases ended : scan.parseEnd
  · rw [if_pos ended]
    simp only [Scan.instructs, ended, if_true]
  rw [if_neg ended]
  by_cases begun : scan.parseBegin
  · rw [if_neg (by simp [begun])]
    by_cases last : endsGen line
    · rw [if_pos (ends.mpr last)]
      simp [Scan.instructs, ended, begun, last]
    · rw [if_neg fun found => last (ends.mp found)]
      simp [Scan.instructs, ended, begun, last]
  · rw [if_pos (by simp [begun])]
    by_cases first : beginsGen line
    · rw [if_pos (begins.mpr first)]
      simp [Scan.instructs, ended, begun, instructLines, first]
    · rw [if_neg fun found => first (begins.mp found)]
      simp [Scan.instructs, ended, begun, instructLines, first]

/-- The loop's other half leaves the instructions. -/
theorem structs_instructs (read : scan.structs line = .ok scan') : scan'.instructs lines = scan.instructs lines := by
  unfold Scan.structs at read
  split at read
  · rw [Except.ok.inj read]
  · dsimp only at read
    split_ifs at read
    split at read
    · cases read
    · unfold Scan.startMsg at read
      dsimp only at read
      split_ifs at read
      · obtain ⟨dict, -, rfl⟩ := map_eq_ok.mp read
        rfl
      · rw [← Except.ok.inj read]
        rfl

theorem readLine_instructs (read : scan.readLine line = .ok scan') :
    scan'.instructs lines = scan.instructs (line :: lines) := by
  unfold Scan.readLine at read
  obtain ⟨next, taken, rfl⟩ := map_eq_ok.mp read
  show next.instructs lines = _
  rw [structs_instructs taken, genInstruct_instructs]
  rfl

theorem foldlM_instructs (read : lines.foldlM Scan.readLine scan = .ok scan') :
    scan'.instructs [] = scan.instructs lines := by
  induction lines generalizing scan with
  | nil => rw [← Except.ok.inj read]
  | cons line lines ih =>
    rw [List.foldlM_cons] at read
    cases once : scan.readLine line with
    | error fault =>
      rw [once] at read
      cases read
    | ok next =>
      rw [once] at read
      rw [ih read, readLine_instructs once]

/-- **The instructions of a text.** -/
theorem readProto_instruct {text : Text} {fileLines parseInstruct : List Text} {dict : Dict}
    (read : readProto text = .ok (fileLines, dict, parseInstruct)) :
    parseInstruct = instructLines (readLines text) := by
  unfold readProto at read
  cases folded : (readLines text).foldlM Scan.readLine Scan.start with
  | error fault =>
    rw [folded] at read
    cases read
  | ok scan =>
    rw [folded] at read
    have all := foldlM_instructs folded
    have closed : (appendLine scan.structDict scan.lastMsgName scan.lineNo).bind (fun structDict =>
        Except.ok (scan.fileLines, structDict, scan.parseInstruct)) = .ok (fileLines, dict, parseInstruct) := read
    rw [bind_ok, map_eq_ok] at closed
    obtain ⟨_, -, same⟩ := closed
    have last : scan.instructs [] = scan.parseInstruct := by simp [Scan.instructs, instructLines]
    calc parseInstruct = scan.parseInstruct := (congrArg (fun result => result.2.2) same).symm
      _ = Scan.start.instructs (readLines text) := last.symm.trans all
      _ = instructLines (readLines text) := List.nil_append _

end Instruct

/-! ### The whole script -/

namespace Gen

/-- `handle_proto`, over what `protoc` says of the file and of those it depends on: the two files when `gen_code` has
been called, and nothing when it has not. -/
def handleProto (script : Script) (filePre text : Text) (desc : FileProto) (depends : List FileProto) :
    Except ProtoFault (Option (Text × Text)) := do
  let (fileLines, structDict, parseInstruct) ← readProto text
  if fileLines = [] then pure none
  else pure (some (written script (desc :: depends) fileLines structDict filePre parseInstruct desc))

/-- What stands behind the declarations of a text. -/
def textNotes (lines : List ProtoLine) : Notes where
  sized className fieldName max := ∃ i key, Declares lines i className fieldName max key
  marked className fieldName := ∃ i max, Declares lines i className fieldName max true

/-- What the author of a `.proto` file and `protoc` see to: there are instructions, the messages of the descriptor
stand in the text, the types are supported, and every field that needs a size is declared with one, in one way, which
no line further up hides. -/
structure Agrees (lines : List ProtoLine) (desc : FileProto) : Prop where
  instructed : 2 ≤ (instructLines (lines.map ProtoLine.text)).length
  package : ∃ ns rest, desc.package.splitOn '.' = protoNs :: ns :: rest
  filled : desc.messageType ≠ []
  message : ∀ message ∈ desc.messageType, ∃ i, messageAt lines i = some message.name
  supported : ∀ message ∈ desc.messageType, ∀ field ∈ message.field,
    Supported field ∧ (field.type = .string → ¬field.repeated)
  once : ∀ i j className fieldName max max' key key', Declares lines i className fieldName max key →
    Declares lines j className fieldName max' key' → max = max' ∧ key = key'
  sized : ∀ message ∈ desc.messageType, ∀ field ∈ message.field, field.repeated ∨ field.type = .string →
    ∃ i max key, Declares lines i message.name field.name max key ∧
      Attributed lines message.name field.name max key

section Files

variable {text : Text} {lines : List ProtoLine} {desc : FileProto} {className fieldName max : Text} {key : Bool}
  {dict : Dict} {parseInstruct : List Text}

/-- What a field is attributed is found for it. -/
theorem found_of_attributed (described : Described text lines) (single : ∀ line ∈ lines, line.Single)
    (read : readProto text = .ok (lines.map ProtoLine.text, dict, parseInstruct))
    (attributed : Attributed lines className fieldName max key) :
    findFieldOpt className fieldName (lines.map ProtoLine.text) dict = .ok (some (max, key)) := by
  obtain ⟨first, next, span, i, above, below, line, here, named, annotated, none⟩ := attributed
  have filled : ∀ line ∈ lines, line.text ≠ [] := by
    intro line member
    refine readLines_ne_nil text _ ?_
    rw [described.read]
    exact List.mem_map_of_mem member
  have within := span.within
  have call : fieldOpt text className fieldName = findFieldOpt className fieldName (lines.map ProtoLine.text) dict := by
    unfold fieldOpt
    rw [read]
    rfl
  rw [← call, fieldOpt_eq described single span, findIn_spec filled (by omega)]
  exact ⟨i, above, by omega, line, here, named, annotated, none⟩

/-- What is found for a field that needs a size is what the text notes of it. -/
theorem notes_agree (once : ∀ i j className fieldName max max' key key', Declares lines i className fieldName max key →
      Declares lines j className fieldName max' key' → max = max' ∧ key = key')
    {i : ℕ} (declares : Declares lines i className fieldName max key)
    (found : findFieldOpt className fieldName (lines.map ProtoLine.text) dict = .ok (some (max, key))) :
    (∀ other, (foundNotes (lines.map ProtoLine.text) dict).sized className fieldName other ↔
      (textNotes lines).sized className fieldName other) ∧
    ((foundNotes (lines.map ProtoLine.text) dict).marked className fieldName ↔
      (textNotes lines).marked className fieldName) := by
  have same : ∀ max' key', findFieldOpt className fieldName (lines.map ProtoLine.text) dict = .ok (some (max', key')) →
      max = max' ∧ key = key' := by
    intro max' key' found'
    have both := Option.some.inj (Except.ok.inj (found.symm.trans found'))
    exact ⟨congrArg Prod.fst both, congrArg Prod.snd both⟩
  constructor
  · intro other
    constructor
    · rintro ⟨key', found'⟩
      obtain ⟨rfl, -⟩ := same other key' found'
      exact ⟨i, key, declares⟩
    · rintro ⟨j, key', declares'⟩
      obtain ⟨rfl, -⟩ := once _ _ _ _ _ _ _ _ declares declares'
      exact ⟨key, found⟩
  · constructor
    · rintro ⟨max', found'⟩
      obtain ⟨-, rfl⟩ := same max' true found'
      exact ⟨i, max, declares⟩
    · rintro ⟨j, max', declares'⟩
      obtain ⟨-, rfl⟩ := once _ _ _ _ _ _ _ _ declares declares'
      exact ⟨max, found⟩

end Files

/-- The text of the deck, with instructions. -/
def deckLines : List ProtoLine :=
  [⟨"//gen_begin\n".toList, 0, .other, 0⟩, ⟨"//rawdata\n".toList, 0, .other, 0⟩,
    ⟨"//gen_end\n".toList, 0, .other, 0⟩, ⟨"message Card \x7b\n".toList, 0, .message "Card".toList, 0⟩,
    ⟨"  optional uint32 id = 1;\n".toList, 0, .other, 0⟩,
    ⟨"  optional string title = 2; // |gen|max|16|\n".toList, 0, .field "title".toList "16".toList false, 0⟩,
    ⟨"\x7d\n".toList, 1, .other, 0⟩, ⟨"message Deck \x7b\n".toList, 0, .message "Deck".toList, 0⟩,
    ⟨"  repeated Card cards = 1; // |gen|max|9|keyopt|\n".toList, 0, .field "cards".toList "9".toList true, 0⟩,
    ⟨"\x7d\n".toList, 1, .other, 0⟩]

def deckText : Text := (deckLines.map ProtoLine.text).flatten

theorem deck_annotated : Annotated "  optional string title = 2; // |gen|max|16|\n".toList "16".toList false ∧
    Annotated "  repeated Card cards = 1; // |gen|max|9|keyopt|\n".toList "9".toList true :=
  ⟨annotated_iff.mpr ⟨32, by decide +kernel, "\n".toList, [], by decide +kernel, by decide⟩,
    annotated_iff.mpr ⟨30, by decide +kernel, "keyopt".toList, ["\n".toList], by decide +kernel, by decide⟩⟩

theorem deck_shaped : ∀ line ∈ deckLines, line.Shaped := by
  have clear : ∀ text ∈ ["//gen_begin\n", "//rawdata\n", "//gen_end\n", "  optional uint32 id = 1;\n", "\x7d\n"],
      ¬keywordMsg <:+: text.toList := by decide +kernel
  simp only [List.forall_mem_cons] at clear
  obtain ⟨first, second, third, plain, last, -⟩ := clear
  unfold deckLines
  simp only [List.forall_mem_cons]
  refine ⟨first, second, third, ?_, plain, ?_, last, ?_, ?_, last, List.forall_mem_nil _⟩
  · exact ⟨[], " ".toList, " \x7b\n".toList, by decide, List.all_eq_true.mp (by decide), by decide⟩
  · exact ⟨by decide +kernel, deck_annotated.1, by decide +kernel⟩
  · exact ⟨[], " ".toList, " \x7b\n".toList, by decide, List.all_eq_true.mp (by decide), by decide⟩
  · exact ⟨by decide +kernel, deck_annotated.2, by decide +kernel⟩

theorem deck_read : readLines deckText = deckLines.map ProtoLine.text := by decide +kernel

theorem deck_single : ∀ line ∈ deckLines, line.Single := by
  have read : (readProto deckText).isOk := by decide +kernel
  cases result : readProto deckText with
  | error fault =>
    rw [result] at read
    cases read
  | ok result' => exact readProto_single deck_read result

theorem deck_messages {i : ℕ} {name : Text} (starts : messageAt deckLines i = some name) :
    i = 3 ∧ name = "Card".toList ∨ i = 7 ∧ name = "Deck".toList := by
  have below : i < 10 := messageAt_lt starts
  interval_cases i
  case «3» => exact Or.inl ⟨rfl, (Option.some.inj starts).symm⟩
  case «7» => exact Or.inr ⟨rfl, (Option.some.inj starts).symm⟩
  all_goals cases starts

theorem deck_described : Described deckText deckLines := by
  have apart : "Card".toList ≠ "Deck".toList := by decide
  refine ⟨deck_read, deck_shaped, fun i j name here there => ?_⟩
  rcases deck_messages here with ⟨rfl, rfl⟩ | ⟨rfl, rfl⟩
  · rcases deck_messages there with ⟨rfl, -⟩ | ⟨-, same⟩
    · rfl
    · exact absurd same apart
  · rcases deck_messages there with ⟨-, same⟩ | ⟨rfl, -⟩
    · exact absurd same.symm apart
    · rfl

theorem deck_fields {i : ℕ} {className fieldName max : Text} {key : Bool}
    (declares : Declares deckLines i className fieldName max key) :
    fieldName = "title".toList ∧ max = "16".toList ∧ key = false ∨
      fieldName = "cards".toList ∧ max = "9".toList ∧ key = true := by
  obtain ⟨line, here, content, -⟩ := declares
  have among : line ∈ deckLines := List.mem_of_getElem? here
  simp only [deckLines, List.mem_cons, List.not_mem_nil, or_false] at among
  rcases among with rfl | rfl | rfl | rfl | rfl | rfl | rfl | rfl | rfl | rfl
  case inr.inr.inr.inr.inr.inl =>
    obtain ⟨name, size, key⟩ := Content.field.inj content
    exact Or.inl ⟨name.symm, size.symm, key.symm⟩
  case inr.inr.inr.inr.inr.inr.inr.inr.inl =>
    obtain ⟨name, size, key⟩ := Content.field.inj content
    exact Or.inr ⟨name.symm, size.symm, key.symm⟩
  all_goals cases content

theorem deck_attributed : Attributed deckLines "Card".toList "title".toList "16".toList false ∧
    Attributed deckLines "Deck".toList "cards".toList "9".toList true := by
  have card : IsSpan deckLines "Card".toList 3 7 :=
    ⟨rfl, by decide, by decide, fun i after below => by interval_cases i <;> rfl, fun _ none => by cases none⟩
  have deck : IsSpan deckLines "Deck".toList 7 10 :=
    ⟨rfl, by decide, le_rfl, fun i after below => by interval_cases i <;> rfl, fun wrong => absurd wrong (by decide)⟩
  have title : ∀ j, 3 ≤ j → j < 5 → ∀ line, deckLines[j]? = some line → ¬"title".toList <:+: line.text := by
    intro j above below line here
    obtain rfl | rfl : j = 3 ∨ j = 4 := by omega
    · rw [← Option.some.inj here]
      decide +kernel
    · rw [← Option.some.inj here]
      decide +kernel
  have cards : ∀ j, 7 ≤ j → j < 8 → ∀ line, deckLines[j]? = some line → ¬"cards".toList <:+: line.text := by
    intro j above below line here
    obtain rfl : j = 7 := by omega
    rw [← Option.some.inj here]
    decide +kernel
  exact ⟨⟨3, 7, card, 5, by decide, by decide, _, rfl, by decide +kernel, deck_annotated.1, title⟩,
    ⟨7, 10, deck, 8, by decide, by decide, _, rfl, by decide +kernel, deck_annotated.2, cards⟩⟩

theorem deck_agrees : Agrees deckLines deckProto := by
  have apart : "title".toList ≠ "cards".toList := by decide
  refine ⟨by decide +kernel, ⟨"Game".toList, [], by decide +kernel⟩, List.cons_ne_nil _ _, ?_, ?_, ?_, ?_⟩
  · unfold deckProto
    simp only [List.forall_mem_cons]
    exact ⟨⟨3, rfl⟩, ⟨7, rfl⟩, List.forall_mem_nil _⟩
  · unfold deckProto
    simp only [List.forall_mem_cons]
    exact ⟨⟨⟨trivial, fun _ => Bool.false_ne_true⟩, ⟨trivial, fun _ => Bool.false_ne_true⟩, List.forall_mem_nil _⟩,
      ⟨⟨⟨"Card".toList, by decide +kernel, by decide, by decide⟩, fun wrong => by cases wrong⟩, List.forall_mem_nil _⟩,
      List.forall_mem_nil _⟩
  · intro i j className fieldName max max' key key' here there
    rcases deck_fields here with ⟨rfl, rfl, rfl⟩ | ⟨rfl, rfl, rfl⟩
    · rcases deck_fields there with ⟨-, rfl, rfl⟩ | ⟨same, -⟩
      · exact ⟨rfl, rfl⟩
      · exact absurd same apart
    · rcases deck_fields there with ⟨same, -⟩ | ⟨-, rfl, rfl⟩
      · exact absurd same.symm apart
      · exact ⟨rfl, rfl⟩
  · unfold deckProto
    simp only [List.forall_mem_cons]
    refine ⟨⟨fun wrong => ?_, fun _ => ⟨5, _, _, ⟨_, rfl, rfl, by decide⟩, deck_attributed.1⟩, List.forall_mem_nil _⟩,
      ⟨fun _ => ⟨8, _, _, ⟨_, rfl, rfl, by decide⟩, deck_attributed.2⟩, List.forall_mem_nil _⟩, List.forall_mem_nil _⟩
    exact wrong.elim (fun many => absurd many Bool.false_ne_true) fun wrong => by cases wrong

theorem deck_keys : HasKeys [deckProto] (textNotes deckLines) deckProto := by
  unfold HasKeys deckProto
  simp only [List.forall_mem_cons]
  exact ⟨⟨fun wrong => absurd wrong Bool.false_ne_true, fun wrong => absurd wrong Bool.false_ne_true,
    List.forall_mem_nil _⟩, ⟨fun _ _ => ⟨_, deck_key⟩, List.forall_mem_nil _⟩, List.forall_mem_nil _⟩

end Gen

end Yarf.Tools
