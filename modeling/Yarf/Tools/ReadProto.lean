/-
**Reading a `.proto` text** (`proto2bin.py`, and the same in `proto2obj4pb.py`).

`read_proto` goes through the lines once and notes, for every message, the number of its line and the number of
the line in front of the next message's.

* `ProtoLine`, `Described` — a text and what its lines declare;
* `Scanned.step` — one line;
* `readProto_spec` — the lines and the numbers of every message;
* `readProto_single` — a text with the keyword twice in a line is given up.
-/

import Mathlib.Logic.Function.Basic
import Mathlib.Tactic.IntervalCases
import Yarf.Lib.Substring

namespace Yarf.Tools

open Lib

abbrev Text := List Char

/-! ### The program -/

/-- `KEYWORD_MSG` -/
def keywordMsg : Text := "message".toList

/-- What `lstrip` strips. -/
def isSpace (c : Char) : Bool := c.toNat = 32 ∨ 9 ≤ c.toNat ∧ c.toNat ≤ 13

def lstrip (text : Text) : Text := text.dropWhile isSpace

def isNameStart (c : Char) : Bool := c.isAlpha || c = '_'

def isNameChar (c : Char) : Bool := c.isAlphanum || c = '_'

/-- `re.search(VAR_NAME_RE, text)`, the group found -/
def varName : Text → Option Text
  | [] => none
  | c :: rest => if isNameStart c then some (c :: rest.takeWhile isNameChar) else none

/-- What `readline` returns, call after call. -/
def readLines : Text → List Text
  | [] => []
  | c :: rest =>
    if c = '\n' then [c] :: readLines rest
    else match readLines rest with
      | [] => [[c]]
      | line :: lines => (c :: line) :: lines

/-- Where a script stops: with a message of its own and no result, or with an exception. -/
inductive ProtoFault
  /-- `line has two message def` -/
  | twoMessages (lineNo : ℕ)
  /-- `message keyword and name should be in one line` -/
  | noName (lineNo : ℕ)
  | keyError
  | indexError
  deriving DecidableEq

abbrev Dict := Text → Option (List ℕ)

/-- `dict[name].append(line_no)` -/
def appendLine (dict : Dict) (name : Text) (lineNo : ℕ) : Except ProtoFault Dict :=
  match dict name with
  | none => .error .keyError
  | some numbers => .ok (Function.update dict name (some (numbers ++ [lineNo])))

/-- The variables of `read_proto`. -/
structure Scan where
  lineNo : ℕ
  lastMsgName : Text
  parseBegin : Bool
  parseEnd : Bool
  fileLines : List Text
  structDict : Dict
  parseInstruct : List Text

namespace Scan

def start : Scan := ⟨0, [], false, false, [], fun _ => none, []⟩

/-- `get gen instruct` -/
def genInstruct (scan : Scan) (line : Text) : Scan :=
  if scan.parseEnd then scan
  else if !scan.parseBegin then
    if find "//gen_begin".toList (lstrip line) = some 0 then
      { scan with parseBegin := true, parseInstruct := scan.parseInstruct ++ [lstrip line] }
    else scan
  else if find "//gen_end".toList (lstrip line) = some 0 then { scan with parseEnd := true }
  else { scan with parseInstruct := scan.parseInstruct ++ [lstrip line] }

/-- A message line: `struct_dict` and `last_msg_name`. -/
def startMsg (scan : Scan) (msgName : Text) : Except ProtoFault Scan :=
  let structDict := Function.update scan.structDict msgName (some [scan.lineNo])
  if scan.lastMsgName ≠ [] then
    (appendLine structDict scan.lastMsgName (scan.lineNo - 1)).map fun structDict =>
      { scan with structDict := structDict, lastMsgName := msgName }
  else .ok { scan with structDict := structDict, lastMsgName := msgName }

/-- `get struct dict & lines` -/
def structs (scan : Scan) (line : Text) : Except ProtoFault Scan :=
  match find keywordMsg line with
  | none => .ok scan
  | some idx =>
    let subline := line.drop (idx + keywordMsg.length)
    if (find keywordMsg subline).isSome then .error (.twoMessages scan.lineNo)
    else match varName (lstrip subline) with
      | none => .error (.noName scan.lineNo)
      | some msgName => scan.startMsg msgName

/-- One round of the loop. -/
def readLine (scan : Scan) (line : Text) : Except ProtoFault Scan :=
  (({ scan with lineNo := scan.lineNo + 1 } : Scan).genInstruct line |>.structs line).map fun scan =>
    { scan with fileLines := scan.fileLines ++ [line] }

end Scan

/-- `read_proto(file)`: the lines, the numbers and the instructions -/
def readProto (text : Text) : Except ProtoFault (List Text × Dict × List Text) := do
  let scan ← (readLines text).foldlM Scan.readLine Scan.start
  let structDict ← appendLine scan.structDict scan.lastMsgName scan.lineNo
  pure (scan.fileLines, structDict, scan.parseInstruct)

/-! ### What a text declares -/

/-- `g_gen_keyword` -/
def genKeyword : Text := "|gen|max|".toList

/-- `g_gen_keyopt` -/
def genKeyopt : Text := "keyopt".toList

/-- The first annotation of the line is `|gen|max|N|`, and `keyopt` stands behind it or not. -/
def Annotated (text max : Text) (key : Bool) : Prop :=
  ∃ decl rest, text = decl ++ (genKeyword ++ (max ++ '|' :: rest)) ∧
    (∀ m < decl.length, ¬genKeyword <+: text.drop m) ∧ '|' ∉ max ∧
    key = decide (rest.takeWhile (· ≠ '|') = genKeyopt)

/-- What a line of a `.proto` text declares. -/
inductive Content
  | message (name : Text)
  | field (name max : Text) (key : Bool)
  | other

/-- A line, and how many messages it ends in front of and behind what it declares. -/
structure ProtoLine where
  text : Text
  endsBefore : ℕ
  content : Content
  endsAfter : ℕ

namespace ProtoLine

def msgName (line : ProtoLine) : Option Text :=
  match line.content with
  | .message name => some name
  | _ => none

/-- The line has the text of what it declares, and the keyword if that is a message. -/
def Shaped (line : ProtoLine) : Prop :=
  match line.content with
  | .message name => ∃ before blank after, line.text = before ++ (keywordMsg ++ (blank ++ (name ++ after))) ∧
      (∀ c ∈ blank, isSpace c) ∧ varName (name ++ after) = some name
  | .field name max key => name <:+: line.text ∧ Annotated line.text max key ∧ ¬keywordMsg <:+: line.text
  | .other => ¬keywordMsg <:+: line.text

/-- The letters of the keyword stand in one place of the line at most. -/
def Single (line : ProtoLine) : Prop :=
  ∀ m n, keywordMsg <+: line.text.drop m → keywordMsg <+: line.text.drop n → m = n

end ProtoLine

/-- The name of the message that the `i`-th line starts. -/
def messageAt (lines : List ProtoLine) (i : ℕ) : Option Text := lines[i]?.bind ProtoLine.msgName

/-- The text consists of these lines, and no two of its messages have one name. -/
structure Described (text : Text) (lines : List ProtoLine) : Prop where
  read : readLines text = lines.map ProtoLine.text
  shaped : ∀ line ∈ lines, line.Shaped
  distinct : ∀ i j name, messageAt lines i = some name → messageAt lines j = some name → i = j

/-- The message's line is the `first`, and the `next` starts another message or is behind the text. -/
structure IsSpan (lines : List ProtoLine) (name : Text) (first next : ℕ) : Prop where
  starts : messageAt lines first = some name
  before : first < next
  within : next ≤ lines.length
  between : ∀ i, first < i → i < next → messageAt lines i = none
  ends : next < lines.length → messageAt lines next ≠ none

/-! ### One line -/

section Line

variable {scan scan' : Scan} {line : ProtoLine} {lines : List ProtoLine} {name : Text} {i first next : ℕ}

theorem msgName_eq_some (starts : line.msgName = some name) : line.content = .message name := by
  unfold ProtoLine.msgName at starts
  split at starts
  · next content => rw [content, Option.some.inj starts]
  · cases starts

theorem msgName_eq_none (shaped : line.Shaped) (none : line.msgName = none) : ¬keywordMsg <:+: line.text := by
  unfold ProtoLine.msgName at none
  unfold ProtoLine.Shaped at shaped
  split at shaped
  · next content =>
    rw [content] at none
    cases none
  · exact shaped.2.2
  · exact shaped

/-- A line without the keyword leaves the names. -/
theorem structs_none (clear : ¬keywordMsg <:+: line.text) : scan.structs line.text = .ok scan := by
  unfold Scan.structs
  rw [find_eq_none_iff.mpr clear]

theorem varName_start {text : Text} (starts : varName text = some name) :
    name ≠ [] ∧ ∃ c rest, text = c :: rest ∧ isNameStart c := by
  unfold varName at starts
  split at starts
  · cases starts
  · next c rest =>
    split at starts
    · next start =>
      refine ⟨?_, c, rest, rfl, start⟩
      rw [← Option.some.inj starts]
      exact List.cons_ne_nil _ _
    · cases starts

theorem not_isSpace_of_isNameStart {c : Char} (start : isNameStart c) : ¬isSpace c := by
  intro space
  have small : c.toNat ≤ 32 := by
    unfold isSpace at space
    rcases of_decide_eq_true space with same | between <;> omega
  unfold isNameStart at start
  rcases (Bool.or_eq_true _ _).mp start with alpha | underscore
  · unfold Char.isAlpha Char.isUpper Char.isLower at alpha
    simp only [Bool.or_eq_true, Bool.and_eq_true, decide_eq_true_eq] at alpha
    rcases alpha with ⟨low, -⟩ | ⟨low, -⟩
    · have := UInt32.le_iff_toNat_le.mp low
      exact absurd (this.trans small) (by decide)
    · have := UInt32.le_iff_toNat_le.mp low
      exact absurd (this.trans small) (by decide)
  · rw [of_decide_eq_true underscore] at small
    exact absurd small (by decide)

/-- A message line with one keyword starts its message. -/
theorem structs_message (shaped : line.Shaped) (single : line.Single) (starts : line.msgName = some name) :
    scan.structs line.text = scan.startMsg name := by
  unfold ProtoLine.Shaped at shaped
  rw [msgName_eq_some starts] at shaped
  obtain ⟨before, blank, after, text, spaces, named⟩ := shaped
  have here : keywordMsg <+: line.text.drop before.length := by
    rw [text, List.drop_left]
    exact List.prefix_append _ _
  have found : find keywordMsg line.text = some before.length := by
    rw [text]
    refine find_append fun m below begins => ?_
    rw [← text] at begins
    exact absurd (single m _ begins here) below.ne
  have behind : line.text.drop (before.length + keywordMsg.length) = blank ++ (name ++ after) := by
    rw [text, ← List.drop_drop, List.drop_left, List.drop_left]
  have clear : find keywordMsg (line.text.drop (before.length + keywordMsg.length)) = none := by
    refine find_eq_none_iff.mpr fun inside => ?_
    obtain ⟨n, -, begins⟩ := infix_iff_drop.mp inside
    rw [List.drop_drop] at begins
    have same := single _ _ begins here
    have long : keywordMsg.length = 7 := by decide
    omega
  have stripped : lstrip (blank ++ (name ++ after)) = name ++ after := by
    obtain ⟨-, c, rest, front, start⟩ := varName_start named
    unfold lstrip
    rw [List.dropWhile_append_of_pos spaces, front, List.dropWhile_cons_of_neg (not_isSpace_of_isNameStart start)]
  unfold Scan.structs
  rw [found]
  dsimp only
  rw [clear, behind, stripped, named]
  rfl

/-- The keyword does not overlap itself. -/
theorem keywordMsg_apart {text : Text} {m n : ℕ} (before : m < n) (first : keywordMsg <+: text.drop m)
    (second : keywordMsg <+: text.drop n) : m + keywordMsg.length ≤ n := by
  by_contra near
  obtain ⟨rest, front⟩ := first
  obtain ⟨d, rfl⟩ := Nat.exists_eq_add_of_lt before
  have long : keywordMsg.length = 7 := by decide
  have short : d < 6 := by omega
  rw [Nat.add_assoc, ← List.drop_drop, ← front, List.drop_append_of_le_length (by omega)] at second
  obtain ⟨rest', same⟩ := second
  have letter := congrArg List.head? same
  interval_cases d <;> exact absurd (Option.some.inj letter) (by decide)

/-- A line with the keyword twice is given up. -/
theorem structs_twice (twice : ¬line.Single) : scan.structs line.text = .error (.twoMessages scan.lineNo) := by
  have pair : ∃ m n, m < n ∧ keywordMsg <+: line.text.drop m ∧ keywordMsg <+: line.text.drop n := by
    unfold ProtoLine.Single at twice
    push Not at twice
    obtain ⟨m, n, first, second, apart⟩ := twice
    rcases Nat.lt_or_gt_of_ne apart with less | more
    · exact ⟨m, n, less, first, second⟩
    · exact ⟨n, m, more, second, first⟩
  obtain ⟨m, n, before, first, second⟩ := pair
  obtain ⟨p, found⟩ := find_isSome_iff.mpr (first.isInfix.trans (List.drop_suffix m line.text).isInfix)
  obtain ⟨-, begins, least⟩ := find_eq_some_iff.mp found
  have early : p ≤ m := Nat.not_lt.mp fun late => least m late first
  have apart := keywordMsg_apart (early.trans_lt before) begins second
  have again : keywordMsg <:+: line.text.drop (p + keywordMsg.length) := by
    refine second.isInfix.trans ?_
    rw [← Nat.add_sub_cancel' apart, ← List.drop_drop]
    exact (List.drop_suffix _ _).isInfix
  obtain ⟨q, there⟩ := find_isSome_iff.mpr again
  unfold Scan.structs
  rw [found]
  dsimp only
  rw [there]
  rfl

end Line

/-! ### The loop -/

section Loop

variable {scan scan' : Scan} {line : ProtoLine} {done rest lines : List ProtoLine} {name other : Text}
  {i first first' next : ℕ}

theorem messageAt_lt (starts : messageAt lines i = some name) : i < lines.length := by
  by_contra beyond
  unfold messageAt at starts
  rw [List.getElem?_eq_none (Nat.not_lt.mp beyond)] at starts
  cases starts

theorem messageAt_append (below : i < done.length) : messageAt (done ++ rest) i = messageAt done i := by
  unfold messageAt
  rw [List.getElem?_append_left below]

theorem messageAt_last : messageAt (done ++ line :: rest) done.length = line.msgName := by
  unfold messageAt
  rw [List.getElem?_append_right le_rfl, Nat.sub_self]
  rfl

/-- Only one message reaches to the end. -/
theorem IsSpan.last_unique (span : IsSpan lines name first lines.length)
    (span' : IsSpan lines other first' lines.length) : first = first' := by
  rcases Nat.lt_trichotomy first first' with before | same | after
  · have wrong := span.between first' before span'.before
    rw [span'.starts] at wrong
    cases wrong
  · exact same
  · have wrong := span'.between first after span.before
    rw [span.starts] at wrong
    cases wrong

/-- A span in the lines read so far is one in all of them. -/
theorem IsSpan.of_append (span : IsSpan (done ++ rest) name first next) (inside : next ≤ done.length)
    (ends : next < done.length → messageAt (done ++ rest) next ≠ none) : IsSpan done name first next := by
  have before := span.before
  refine ⟨?_, before, inside, fun i after below => ?_, fun below => ?_⟩
  · rw [← messageAt_append (by omega)]
    exact span.starts
  · rw [← messageAt_append (by omega)]
    exact span.between i after below
  · rw [← messageAt_append below]
    exact ends below

/-- A line without a message belongs to the last one. -/
theorem IsSpan.extend (span : IsSpan done name first done.length) (none : line.msgName = none) :
    IsSpan (done ++ [line]) name first (done ++ [line]).length := by
  refine ⟨?_, span.before.trans (by simp), le_rfl, fun i after below => ?_, fun below => absurd below (lt_irrefl _)⟩
  · rw [messageAt_append span.before]
    exact span.starts
  · rw [List.length_append, List.length_singleton] at below
    rcases Nat.lt_or_eq_of_le (Nat.le_of_lt_succ below) with before | same
    · rw [messageAt_append before]
      exact span.between i after before
    · rw [same, messageAt_last]
      exact none

/-- With the second number of the last message, every message has its two. -/
theorem IsSpan.numbered {dict : Dict} (last : IsSpan lines name first lines.length)
    (distinct : ∀ i j name, messageAt lines i = some name → messageAt lines j = some name → i = j)
    (closed : ∀ name first next, IsSpan lines name first next → next < lines.length →
      dict name = some [first + 1, next])
    (span : IsSpan lines other first' next) :
    Function.update dict name (some [first + 1, lines.length]) other = some [first' + 1, next] := by
  rcases Nat.lt_or_eq_of_le span.within with inside | same
  · have apart : other ≠ name := by
      rintro rfl
      have one := distinct first' first _ span.starts last.starts
      exact span.ends inside (last.between next (one ▸ span.before) inside)
    rw [Function.update_of_ne apart]
    exact closed other first' next span inside
  · rw [same] at span
    have one := span.last_unique last
    have name' : other = name := Option.some.inj (span.starts.symm.trans ((congrArg _ one).trans last.starts))
    rw [name', Function.update_self, one, same]

/-- What `read_proto` knows after some lines: the numbers of every message but the last, and the first of its. -/
structure Scanned (done : List ProtoLine) (scan : Scan) : Prop where
  lineNo : scan.lineNo = done.length
  fileLines : scan.fileLines = done.map ProtoLine.text
  closed : ∀ name first next, IsSpan done name first next → next < done.length →
    scan.structDict name = some [first + 1, next]
  last : (scan.lastMsgName = [] ∧ ∀ i, messageAt done i = none) ∨ (scan.lastMsgName ≠ [] ∧
    ∃ first, IsSpan done scan.lastMsgName first done.length ∧ scan.structDict scan.lastMsgName = some [first + 1])

theorem scanned_start : Scanned [] Scan.start :=
  ⟨rfl, rfl, fun _ _ _ _ below => absurd below (Nat.not_lt_zero _), .inl ⟨rfl, fun _ => rfl⟩⟩

/-- The instructions leave the rest. -/
theorem genInstruct_eq (scan : Scan) (text : Text) : ∃ parseBegin parseEnd parseInstruct,
    scan.genInstruct text = { scan with
      parseBegin := parseBegin, parseEnd := parseEnd, parseInstruct := parseInstruct } := by
  unfold Scan.genInstruct
  split_ifs <;> exact ⟨_, _, _, rfl⟩

/-- A line without a message. -/
theorem Scanned.plain (scanned : Scanned done scan) (none : line.msgName = none)
    (lineNo : scan'.lineNo = scan.lineNo + 1) (fileLines : scan'.fileLines = scan.fileLines ++ [line.text])
    (dict : scan'.structDict = scan.structDict) (name : scan'.lastMsgName = scan.lastMsgName) :
    Scanned (done ++ [line]) scan' := by
  have here : messageAt (done ++ [line]) done.length = Option.none := messageAt_last.trans none
  refine ⟨?_, ?_, fun name first next span below => ?_, ?_⟩
  · rw [lineNo, scanned.lineNo, List.length_append, List.length_singleton]
  · rw [fileLines, scanned.fileLines, List.map_append]
    rfl
  · rw [List.length_append, List.length_singleton] at below
    have apart : next ≠ done.length := by
      rintro rfl
      exact span.ends (by simp) here
    have inside : next < done.length := by omega
    rw [dict]
    refine scanned.closed name first next (span.of_append inside.le fun _ => span.ends ?_) inside
    rw [List.length_append]
    omega
  · rw [name, dict]
    rcases scanned.last with ⟨empty, clear⟩ | ⟨some, first, span, numbers⟩
    · refine .inl ⟨empty, fun i => ?_⟩
      rcases Nat.lt_trichotomy i done.length with below | rfl | above
      · rw [messageAt_append below]
        exact clear i
      · exact here
      · unfold messageAt
        rw [List.getElem?_eq_none (by simp; omega)]
        rfl
    · exact .inr ⟨some, first, span.extend none, numbers⟩

theorem startMsg_first (fresh : scan.lastMsgName = []) : scan.startMsg name = .ok { scan with
    structDict := Function.update scan.structDict name (some [scan.lineNo]), lastMsgName := name } := by
  unfold Scan.startMsg
  exact if_neg (not_not_intro fresh)

theorem startMsg_next (some' : scan.lastMsgName ≠ []) (apart : scan.lastMsgName ≠ name)
    (numbers : scan.structDict scan.lastMsgName = some [i]) : scan.startMsg name = .ok { scan with
      structDict := Function.update (Function.update scan.structDict name (some [scan.lineNo]))
        scan.lastMsgName (some [i, scan.lineNo - 1]), lastMsgName := name } := by
  unfold Scan.startMsg appendLine
  dsimp only
  rw [if_pos some', Function.update_of_ne apart, numbers]
  rfl

/-- A line that starts a message. -/
theorem Scanned.message (scanned : Scanned done scan) (starts : line.msgName = some name) (named : name ≠ [])
    (distinct : ∀ i j name, messageAt (done ++ [line]) i = some name → messageAt (done ++ [line]) j = some name →
      i = j) (scan₁ : Scan) (lineNo : scan₁.lineNo = scan.lineNo + 1) (dict : scan₁.structDict = scan.structDict)
    (last : scan₁.lastMsgName = scan.lastMsgName) (fileLines : scan₁.fileLines = scan.fileLines) :
    ∃ scan₂, scan₁.startMsg name = .ok scan₂ ∧
      Scanned (done ++ [line]) { scan₂ with fileLines := scan₂.fileLines ++ [line.text] } := by
  have here : messageAt (done ++ [line]) done.length = some name := messageAt_last.trans starts
  have length : (done ++ [line]).length = done.length + 1 := by simp
  have number : scan₁.lineNo = done.length + 1 := by rw [lineNo, scanned.lineNo]
  have texts : scan₁.fileLines ++ [line.text] = (done ++ [line]).map ProtoLine.text := by
    rw [fileLines, scanned.fileLines, List.map_append]
    rfl
  have span : IsSpan (done ++ [line]) name done.length (done ++ [line]).length := by
    refine ⟨here, by omega, le_rfl, fun i after below => ?_, fun below => absurd below (lt_irrefl _)⟩
    omega
  -- every span that is closed now was one before, closed or the last
  have before : ∀ {other first next}, IsSpan (done ++ [line]) other first next → next < (done ++ [line]).length →
      IsSpan done other first next := by
    intro other first next closed below
    exact closed.of_append (by omega) fun inside => closed.ends (by omega)
  have front : ∀ {i other}, messageAt done i = some other → messageAt (done ++ [line]) i = some other :=
    fun starts => (messageAt_append (messageAt_lt starts)).trans starts
  have fresh : ∀ {i other}, messageAt done i = some other → other ≠ name := by
    rintro i other earlier rfl
    have same := distinct _ _ _ (front earlier) here
    exact absurd (messageAt_lt earlier) same.not_lt
  rcases scanned.last with ⟨empty, clear⟩ | ⟨some', first, opened, numbers⟩
  · refine ⟨_, startMsg_first (last.trans empty), ?_, texts, fun other first next closed below => ?_,
      .inr ⟨named, ?_⟩⟩
    · rw [length]
      exact number
    · have wrong := (before closed below).starts
      rw [clear] at wrong
      cases wrong
    · refine ⟨done.length, span, ?_⟩
      dsimp only
      rw [Function.update_self, number]
  · have apart : scan.lastMsgName ≠ name := fresh opened.starts
    have numbered : scan₁.structDict scan₁.lastMsgName = some [first + 1] := by rw [dict, last, numbers]
    refine ⟨_, startMsg_next (last ▸ some') (last ▸ apart) numbered, ?_, texts,
      fun other first' next closed below => ?_, .inr ⟨named, ?_⟩⟩
    · rw [length]
      exact number
    · dsimp only
      rw [last, dict, number, Nat.add_sub_cancel]
      refine opened.numbered (fun i j other here there => distinct i j other (front here) (front there)) ?_
        (before closed below)
      intro other first next span inside
      rw [Function.update_of_ne (fresh span.starts)]
      exact scanned.closed other first next span inside
    · refine ⟨done.length, span, ?_⟩
      dsimp only
      rw [last, Function.update_of_ne apart.symm, Function.update_self, number]

/-- **One line.** -/
theorem Scanned.step (scanned : Scanned done scan) (shaped : line.Shaped) (single : line.Single)
    (distinct : ∀ i j name, messageAt (done ++ [line]) i = some name → messageAt (done ++ [line]) j = some name →
      i = j) : ∃ scan', scan.readLine line.text = .ok scan' ∧ Scanned (done ++ [line]) scan' := by
  obtain ⟨parseBegin, parseEnd, parseInstruct, instructed⟩ :=
    genInstruct_eq { scan with lineNo := scan.lineNo + 1 } line.text
  unfold Scan.readLine
  rw [instructed]
  cases starts : line.msgName with
  | none =>
    rw [structs_none (msgName_eq_none shaped starts)]
    exact ⟨_, rfl, scanned.plain starts rfl rfl rfl rfl⟩
  | some name =>
    have named : name ≠ [] := by
      unfold ProtoLine.Shaped at shaped
      rw [msgName_eq_some starts] at shaped
      obtain ⟨_, _, _, _, _, start⟩ := shaped
      exact (varName_start start).1
    rw [structs_message shaped single starts]
    obtain ⟨scan₂, started, next⟩ := scanned.message starts named distinct
      { scan with
        lineNo := scan.lineNo + 1, parseBegin := parseBegin, parseEnd := parseEnd, parseInstruct := parseInstruct }
      rfl rfl rfl rfl
    rw [started]
    exact ⟨_, rfl, next⟩

/-- All lines. -/
theorem Scanned.run (scanned : Scanned done scan) (shaped : ∀ line ∈ rest, line.Shaped)
    (single : ∀ line ∈ rest, line.Single)
    (distinct : ∀ i j name, messageAt (done ++ rest) i = some name → messageAt (done ++ rest) j = some name →
      i = j) :
    ∃ scan', (rest.map ProtoLine.text).foldlM Scan.readLine scan = .ok scan' ∧ Scanned (done ++ rest) scan' := by
  induction rest generalizing done scan with
  | nil =>
    rw [List.append_nil]
    exact ⟨scan, rfl, scanned⟩
  | cons line rest ih =>
    have front : ∀ {i name}, messageAt (done ++ [line]) i = some name →
        messageAt (done ++ line :: rest) i = some name := by
      intro i name starts
      rw [← starts, List.append_cons]
      exact messageAt_append (messageAt_lt starts)
    obtain ⟨next, read, scanned'⟩ := scanned.step (shaped line List.mem_cons_self)
      (single line List.mem_cons_self) fun i j name here there => distinct i j name (front here) (front there)
    obtain ⟨last, more, scanned''⟩ := ih scanned' (fun l member => shaped l (List.mem_cons_of_mem _ member))
      (fun l member => single l (List.mem_cons_of_mem _ member)) (by rwa [← List.append_cons])
    rw [← List.append_cons] at scanned''
    refine ⟨last, ?_, scanned''⟩
    rw [List.map_cons, List.foldlM_cons, read]
    exact more

/-- **What `read_proto` returns**: the lines, and for every message the number of its line and the number of the
last line in front of the next message's. -/
theorem readProto_spec {text : Text} (described : Described text lines) (single : ∀ line ∈ lines, line.Single)
    (starts : messageAt lines i = some name) : ∃ dict parseInstruct,
      readProto text = .ok (lines.map ProtoLine.text, dict, parseInstruct) ∧
        ∀ name first next, IsSpan lines name first next → dict name = some [first + 1, next] := by
  obtain ⟨scan, read, scanned⟩ := scanned_start.run described.shaped single described.distinct
  rw [List.nil_append] at scanned
  rcases scanned.last with ⟨-, clear⟩ | ⟨-, first, opened, numbers⟩
  · rw [clear] at starts
    cases starts
  · refine ⟨Function.update scan.structDict scan.lastMsgName (some [first + 1, lines.length]), scan.parseInstruct,
      ?_, fun other first' next span => ?_⟩
    · unfold readProto appendLine
      rw [described.read, read]
      show Except.bind _ _ = _
      dsimp only [Except.bind]
      rw [numbers, scanned.fileLines, scanned.lineNo]
      rfl
    · exact opened.numbered described.distinct scanned.closed span

/-- A text that is read has the keyword once in its message lines. -/
theorem readLine_single {scan' : Scan} (read : scan.readLine line.text = .ok scan') : line.Single := by
  by_contra twice
  unfold Scan.readLine at read
  rw [structs_twice twice] at read
  cases read

theorem readProto_single {text : Text} {result : List Text × Dict × List Text}
    (described : readLines text = lines.map ProtoLine.text) (read : readProto text = .ok result) :
    ∀ line ∈ lines, line.Single := by
  have all : ∀ (lines : List ProtoLine) (scan scan' : Scan),
      (lines.map ProtoLine.text).foldlM Scan.readLine scan = .ok scan' → ∀ line ∈ lines, line.Single := by
    intro lines
    induction lines with
    | nil => exact fun _ _ _ line member => absurd member List.not_mem_nil
    | cons first lines ih =>
      intro scan scan' read line member
      rw [List.map_cons, List.foldlM_cons] at read
      cases once : scan.readLine first.text with
      | error fault =>
        rw [once] at read
        cases read
      | ok next =>
        rw [once] at read
        rcases List.mem_cons.mp member with same | later
        · rw [same]
          exact readLine_single once
        · exact ih next scan' read line later
  unfold readProto at read
  rw [described] at read
  cases folded : (lines.map ProtoLine.text).foldlM Scan.readLine Scan.start with
  | error fault =>
    rw [folded] at read
    cases read
  | ok scan => exact all lines _ _ folded

end Loop

end Yarf.Tools
