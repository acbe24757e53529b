/-
**What a configuration template says.**

A template is read back line by line, with the messages that are open on a stack. It has an entry for every field of the
root type, and two for a repeated one, and the entry of a message has the entries of its fields.

* `Entry`, `linesOf` — what a template consists of, and its lines;
* `readConf` — a template read back;
* `AreEntries` — the entries of the fields of a type;
* `readConf_linesOf` — the lines of entries are read back as the entries;
* `genCode_ok_iff` — what `gen_code` writes is the lines of the entries;
* `template_reads_back` — what `handle_proto` writes is read back as the entries of the root type.
-/

import Yarf.Tools.ConfTemplate

namespace Yarf.Tools

open Lib

/-! ### Entries -/

/-- An entry of a configuration. -/
inductive Entry
  | number (field : Text)
  | string (field : Text)
  | message (field : Text) (entries : List Entry)

mutual

/-- The lines of an entry. -/
def Entry.lines (indent : ℤ) : Entry → List Text
  | .number field => [spaces indent ++ confSingleField field]
  | .string field => [spaces indent ++ confStringField field]
  | .message field entries => (spaces indent ++ confStructFieldBegin field) ::
      (linesOf (indent + 2) entries ++ [spaces indent ++ confStructFieldEnd])

def linesOf (indent : ℤ) : List Entry → List Text
  | [] => []
  | entry :: entries => entry.lines indent ++ linesOf indent entries

end

/-! ### Reading -/

/-- What a line says. -/
inductive ConfLine
  | number (field : Text)
  | string (field : Text)
  | begins (field : Text)
  | ends

def confLine (line : Text) : Option ConfLine :=
  let text := lstrip line
  let field := text.takeWhile (· ≠ ':')
  let value := text.dropWhile (· ≠ ':')
  if text = confStructFieldEnd then some .ends
  else if value = ": 0 \n".toList then some (.number field)
  else if value = ": \"\" \n".toList then some (.string field)
  else if value = ": \x7b\n".toList then some (.begins field)
  else none

/-- The messages that are open, with the entries in front of them, and the entries of the innermost. -/
structure Reading where
  opened : List (Text × List Entry)
  entries : List Entry

def Reading.take (reading : Reading) (line : Text) : Option Reading :=
  match confLine line, reading.opened with
  | some (.number field), _ => some { reading with entries := reading.entries ++ [.number field] }
  | some (.string field), _ => some { reading with entries := reading.entries ++ [.string field] }
  | some (.begins field), _ => some ⟨(field, reading.entries) :: reading.opened, []⟩
  | some .ends, (field, before) :: opened => some ⟨opened, before ++ [.message field reading.entries]⟩
  | _, _ => none

/-- The entries of a text, every message of which is closed. -/
def readConf (text : Text) : Option (List Entry) :=
  ((readLines text).foldlM Reading.take ⟨[], []⟩).bind fun reading =>
    if reading.opened = [] then some reading.entries else none

/-! ### The entries of a type -/

mutual

inductive IsEntry (table : AllMsg) : FieldDesc → Entry → Prop
  | number {field : FieldDesc} : field.type = .other → IsEntry table field (.number field.name)
  | string {field : FieldDesc} : field.type = .string → IsEntry table field (.string field.name)
  | message {field : FieldDesc} {msg : MsgType} {entries : List Entry} : Targets table field msg →
    AreEntries table msg.field entries → IsEntry table field (.message field.name entries)

/-- An entry for each field, and two for a repeated one. -/
inductive AreEntries (table : AllMsg) : List FieldDesc → List Entry → Prop
  | nil : AreEntries table [] []
  | cons {field : FieldDesc} {rest : List FieldDesc} {entry : Entry} {entries : List Entry} :
    IsEntry table field entry → AreEntries table rest entries →
    AreEntries table (field :: rest) ((if field.repeated then [entry, entry] else [entry]) ++ entries)

end

/-- A name that is one word. -/
def IsWord (name : Text) : Prop := ∀ c ∈ name, c ≠ ':' ∧ ¬isSpace c

instance (name : Text) : Decidable (IsWord name) := List.decidableBAll (fun c => c ≠ ':' ∧ ¬isSpace c) name

mutual

/-- The names of an entry are words. -/
def Entry.Named : Entry → Prop
  | .number field => IsWord field
  | .string field => IsWord field
  | .message field entries => IsWord field ∧ AllNamed entries

def AllNamed : List Entry → Prop
  | [] => True
  | entry :: entries => entry.Named ∧ AllNamed entries

end

/-! ### Lines -/

section Lines

variable {name line : Text} {lines : List Text} {indent : ℤ}

/-- The text has one line. -/
def IsLine (line : Text) : Prop := ∃ text, '\n' ∉ text ∧ line = text ++ ['\n']

theorem readLines_append {text rest : Text} (clear : '\n' ∉ text) :
    readLines (text ++ ('\n' :: rest)) = (text ++ ['\n']) :: readLines rest := by
  induction text with
  | nil => rw [List.nil_append, readLines, if_pos rfl, List.nil_append]
  | cons c text ih =>
    obtain ⟨apart, clear⟩ := not_or.mp (List.mem_cons.not.mp clear)
    rw [List.cons_append, readLines, if_neg (Ne.symm apart), ih clear]
    rfl

/-- The lines of a text are read. -/
theorem readLines_flatten (all : ∀ line ∈ lines, IsLine line) : readLines lines.flatten = lines := by
  induction lines with
  | nil => rfl
  | cons line lines ih =>
    obtain ⟨⟨text, clear, rfl⟩, rest⟩ := List.forall_mem_cons.mp all
    rw [List.flatten_cons, List.append_assoc, List.singleton_append, readLines_append clear, ih rest]

theorem IsWord.clear (word : IsWord name) : '\n' ∉ name :=
  fun member => (word _ member).2 (by decide)

theorem spaces_clear : '\n' ∉ spaces indent :=
  fun member => absurd (List.eq_of_mem_replicate member) (by decide)

/-- A line of a field. -/
theorem isLine_field {value : Text} (word : IsWord name) (clear : '\n' ∉ value) :
    IsLine (spaces indent ++ (name ++ (value ++ ['\n']))) := by
  refine ⟨spaces indent ++ (name ++ value), ?_, by simp only [List.append_assoc]⟩
  simp only [List.mem_append, not_or]
  exact ⟨spaces_clear, word.clear, clear⟩

theorem isLine_end : IsLine (spaces indent ++ confStructFieldEnd) := by
  refine ⟨spaces indent ++ ['\x7d'], ?_, by rw [List.append_assoc]; rfl⟩
  rw [List.mem_append]
  exact not_or.mpr ⟨spaces_clear, by decide⟩

theorem lstrip_spaces (text : Text) : lstrip (spaces indent ++ text) = lstrip text := by
  unfold lstrip spaces
  rw [List.dropWhile_append_of_pos]
  intro c member
  rw [List.eq_of_mem_replicate member]
  decide

/-- The field and the value of a line. -/
theorem confLine_field {value : Text} (word : IsWord name) (colon : ∃ rest, value = ':' :: rest) :
    confLine (spaces indent ++ (name ++ value)) =
      if value = ": 0 \n".toList then some (.number name)
      else if value = ": \"\" \n".toList then some (.string name)
      else if value = ": \x7b\n".toList then some (.begins name)
      else none := by
  obtain ⟨rest, rfl⟩ := colon
  have stripped : lstrip (name ++ ':' :: rest) = name ++ ':' :: rest := by
    unfold lstrip
    cases name with
    | nil => exact List.dropWhile_cons_of_neg (by decide)
    | cons c name => exact List.dropWhile_cons_of_neg (word c List.mem_cons_self).2
  have all : ∀ c ∈ name, (decide (c ≠ ':')) = true := fun c member => decide_eq_true (word c member).1
  have front : (name ++ ':' :: rest).takeWhile (· ≠ ':') = name := by
    rw [List.takeWhile_append_of_pos all, List.takeWhile_cons_of_neg (by decide), List.append_nil]
  have back : (name ++ ':' :: rest).dropWhile (· ≠ ':') = ':' :: rest := by
    rw [List.dropWhile_append_of_pos all, List.dropWhile_cons_of_neg (by decide)]
  have open' : name ++ ':' :: rest ≠ confStructFieldEnd := by
    intro same
    have colon : ':' ∈ confStructFieldEnd := same ▸ List.mem_append_right _ List.mem_cons_self
    exact absurd colon (by decide)
  unfold confLine
  dsimp only
  rw [lstrip_spaces, stripped, if_neg open', front, back]

theorem confLine_end : confLine (spaces indent ++ confStructFieldEnd) = some .ends := by
  have stripped : lstrip confStructFieldEnd = confStructFieldEnd := by decide
  unfold confLine
  dsimp only
  rw [lstrip_spaces, stripped, if_pos rfl]

end Lines

/-! ### Entries are read back -/

section Read

variable {indent : ℤ} {entries : List Entry}

theorem take_of_number {reading : Reading} {line name : Text} (told : confLine line = some (.number name)) :
    reading.take line = some { reading with entries := reading.entries ++ [.number name] } := by
  unfold Reading.take
  rw [told]

theorem take_of_string {reading : Reading} {line name : Text} (told : confLine line = some (.string name)) :
    reading.take line = some { reading with entries := reading.entries ++ [.string name] } := by
  unfold Reading.take
  rw [told]

theorem take_of_begins {reading : Reading} {line name : Text} (told : confLine line = some (.begins name)) :
    reading.take line = some ⟨(name, reading.entries) :: reading.opened, []⟩ := by
  unfold Reading.take
  rw [told]

theorem take_of_ends {line name : Text} {before entries : List Entry} {opened : List (Text × List Entry)}
    (told : confLine line = some .ends) :
    (⟨(name, before) :: opened, entries⟩ : Reading).take line = some ⟨opened, before ++ [.message name entries]⟩ := by
  unfold Reading.take
  rw [told]

mutual

/-- **The lines of an entry** are taken as the entry, whatever is open. -/
theorem Entry.take_lines : ∀ (entry : Entry) (indent : ℤ), entry.Named → ∀ (reading : Reading) (rest : List Text),
    (entry.lines indent ++ rest).foldlM Reading.take reading =
      rest.foldlM Reading.take { reading with entries := reading.entries ++ [entry] }
  | .number name, indent, word, reading, rest => by
    have told : confLine (spaces indent ++ confSingleField name) = some (.number name) :=
      (confLine_field word ⟨_, rfl⟩).trans (if_pos rfl)
    unfold Entry.lines
    rw [List.singleton_append, List.foldlM_cons, take_of_number told]
    rfl
  | .string name, indent, word, reading, rest => by
    have told : confLine (spaces indent ++ confStringField name) = some (.string name) :=
      (confLine_field word ⟨_, rfl⟩).trans ((if_neg (by decide)).trans (if_pos rfl))
    unfold Entry.lines
    rw [List.singleton_append, List.foldlM_cons, take_of_string told]
    rfl
  | .message name entries, indent, named, reading, rest => by
    unfold Entry.Named at named
    have told : confLine (spaces indent ++ confStructFieldBegin name) = some (.begins name) :=
      (confLine_field named.1 ⟨_, rfl⟩).trans
        ((if_neg (by decide)).trans ((if_neg (by decide)).trans (if_pos rfl)))
    unfold Entry.lines
    rw [List.cons_append, List.foldlM_cons, take_of_begins told, Option.bind_eq_bind, Option.bind_some,
      List.append_assoc, take_linesOf entries (indent + 2) named.2, List.singleton_append, List.foldlM_cons,
      take_of_ends confLine_end]
    rfl

theorem take_linesOf : ∀ (entries : List Entry) (indent : ℤ), AllNamed entries → ∀ (reading : Reading) (rest : List Text),
    (linesOf indent entries ++ rest).foldlM Reading.take reading =
      rest.foldlM Reading.take { reading with entries := reading.entries ++ entries }
  | [], indent, _, reading, rest => by
    unfold linesOf
    rw [List.nil_append, List.append_nil]
  | entry :: entries, indent, named, reading, rest => by
    unfold AllNamed at named
    unfold linesOf
    rw [List.append_assoc, Entry.take_lines entry indent named.1, take_linesOf entries indent named.2,
      List.append_assoc, List.singleton_append]

end

mutual

theorem Entry.isLine : ∀ (entry : Entry) (indent : ℤ), entry.Named → ∀ line ∈ entry.lines indent, IsLine line
  | .number name, indent, word => by
    unfold Entry.lines
    rw [List.forall_mem_singleton]
    exact isLine_field word (by decide : '\n' ∉ ": 0 ".toList)
  | .string name, indent, word => by
    unfold Entry.lines
    rw [List.forall_mem_singleton]
    exact isLine_field word (by decide : '\n' ∉ ": \"\" ".toList)
  | .message name entries, indent, named => by
    unfold Entry.Named at named
    unfold Entry.lines
    rw [List.forall_mem_cons, List.forall_mem_append, List.forall_mem_singleton]
    exact ⟨isLine_field named.1 (by decide : '\n' ∉ ": \x7b".toList),
      isLine_of_mem_linesOf entries (indent + 2) named.2, isLine_end⟩

theorem isLine_of_mem_linesOf : ∀ (entries : List Entry) (indent : ℤ), AllNamed entries →
    ∀ line ∈ linesOf indent entries, IsLine line
  | [], indent, _ => by
    unfold linesOf
    exact List.forall_mem_nil _
  | entry :: entries, indent, named => by
    unfold AllNamed at named
    unfold linesOf
    rw [List.forall_mem_append]
    exact ⟨entry.isLine indent named.1, isLine_of_mem_linesOf entries indent named.2⟩

end

/-- **The lines of entries are read back as the entries.** -/
theorem readConf_linesOf (named : AllNamed entries) : readConf (linesOf indent entries).flatten = some entries := by
  have taken := take_linesOf entries indent named ⟨[], []⟩ []
  rw [List.append_nil] at taken
  unfold readConf
  rw [readLines_flatten (isLine_of_mem_linesOf entries indent named), taken]
  rfl

end Read

/-! ### What `gen_code` writes -/

section Written

variable {table : AllMsg} {fuel : ℕ} {msg : MsgType} {field : FieldDesc} {fields : List FieldDesc} {entry : Entry}
  {entries entries' : List Entry} {indent : ℤ} {text : Text} {first rest : Outcome}

theorem andThen_eq_ok : andThen first rest = some (.ok text) ↔
    ∃ front back, first = some (.ok front) ∧ rest = some (.ok back) ∧ text = front ++ back := by
  match first with
  | none => simp [andThen]
  | some (.error fault) => simp [andThen]
  | some (.ok front) =>
    match rest with
    | none => simp [andThen]
    | some (.error fault) => simp [andThen, Except.map]
    | some (.ok back) => simp [andThen, Except.map, eq_comm]

theorem linesOf_append : linesOf indent (entries ++ entries') = linesOf indent entries ++ linesOf indent entries' := by
  induction entries with
  | nil => rw [List.nil_append, linesOf, List.nil_append]
  | cons entry entries ih => rw [List.cons_append, linesOf, ih, linesOf, List.append_assoc]

/-- What is written twice for a repeated field. -/
theorem genFields_cons_of_ok {gen : MsgType → ℤ → Outcome}
    (single : genSingleCode table gen field indent = some (.ok (entry.lines indent).flatten))
    (others : genFields table gen fields indent = some (.ok (linesOf indent entries).flatten)) :
    genFields table gen (field :: fields) indent = some (.ok
      (linesOf indent ((if field.repeated then [entry, entry] else [entry]) ++ entries)).flatten) := by
  have again : (if field.repeated then genSingleCode table gen field indent else some (.ok [])) =
      some (.ok (if field.repeated then (entry.lines indent).flatten else [])) := by
    split_ifs
    · exact single
    · rfl
  unfold genFields
  refine andThen_eq_ok.mpr ⟨_, _, single, andThen_eq_ok.mpr ⟨_, _, again, others, rfl⟩, ?_⟩
  rw [linesOf_append, List.flatten_append]
  split_ifs
  · simp only [linesOf, List.append_nil, List.flatten_append, List.append_assoc]
  · simp only [linesOf, List.append_nil, List.nil_append]

mutual

/-- An entry is written with enough fuel. -/
theorem IsEntry.written : ∀ {field : FieldDesc} {entry : Entry}, IsEntry table field entry → ∀ indent,
    ∃ fuel, genSingleCode table (genCode table fuel) field indent = some (.ok (entry.lines indent).flatten)
  | _, _, .number kind, indent => by
    refine ⟨0, ?_⟩
    unfold genSingleCode
    rw [kind]
    simp only [Entry.lines, List.flatten_singleton]
  | _, _, .string kind, indent => by
    refine ⟨0, ?_⟩
    unfold genSingleCode
    rw [kind]
    simp only [Entry.lines, List.flatten_singleton]
  | _, _, .message targets inner, indent => by
    obtain ⟨fuel, written⟩ := AreEntries.written inner (indent + 2)
    refine ⟨fuel + 1, ?_⟩
    rw [genSingleCode_of_targets targets]
    refine andThen_eq_ok.mpr ⟨_, _, rfl, andThen_eq_ok.mpr ⟨_, _, written, rfl, rfl⟩, ?_⟩
    simp only [Entry.lines, List.flatten_cons, List.flatten_append, List.flatten_nil, List.append_nil]

theorem AreEntries.written : ∀ {fields : List FieldDesc} {entries : List Entry}, AreEntries table fields entries →
    ∀ indent, ∃ fuel, genFields table (genCode table fuel) fields indent = some (.ok (linesOf indent entries).flatten)
  | _, _, .nil, indent => ⟨0, rfl⟩
  | _, _, .cons first others, indent => by
    obtain ⟨fuel, single⟩ := IsEntry.written first indent
    obtain ⟨fuel', written⟩ := AreEntries.written others indent
    refine ⟨max fuel fuel', genFields_cons_of_ok ?_ ?_⟩
    · exact genSingleCode_mono (fun msg => genCode_mono (le_max_left _ _) msg) _ single
    · exact genFields_mono (fun msg => genCode_mono (le_max_right _ _) msg) _ written

end

/-- What is written for a field is an entry. -/
theorem exists_entry {gen : MsgType → ℤ → Outcome}
    (inner : ∀ msg text, gen msg (indent + 2) = some (.ok text) →
      ∃ entries, AreEntries table msg.field entries ∧ text = (linesOf (indent + 2) entries).flatten)
    (written : genSingleCode table gen field indent = some (.ok text)) :
    ∃ entry, IsEntry table field entry ∧ text = (entry.lines indent).flatten := by
  by_cases found : ∃ msg, Targets table field msg
  · obtain ⟨msg, targets⟩ := found
    rw [genSingleCode_of_targets targets] at written
    obtain ⟨front, back, begins, rest, rfl⟩ := andThen_eq_ok.mp written
    obtain ⟨middle, last, below, ends, rfl⟩ := andThen_eq_ok.mp rest
    obtain ⟨entries, are, rfl⟩ := inner msg middle below
    refine ⟨.message field.name entries, .message targets are, ?_⟩
    rw [← Except.ok.inj (Option.some.inj begins), ← Except.ok.inj (Option.some.inj ends)]
    simp only [Entry.lines, List.flatten_cons, List.flatten_append, List.flatten_nil, List.append_nil]
  · unfold genSingleCode at written
    cases kind : field.type with
    | message =>
      rw [kind] at written
      cases lookup : table (fieldType field) with
      | none =>
        rw [lookup] at written
        cases written
      | some msg => exact absurd ⟨msg, kind, lookup⟩ found
    | string =>
      rw [kind] at written
      refine ⟨.string field.name, .string kind, ?_⟩
      rw [← Except.ok.inj (Option.some.inj written)]
      simp only [Entry.lines, List.flatten_singleton]
    | other =>
      rw [kind] at written
      refine ⟨.number field.name, .number kind, ?_⟩
      rw [← Except.ok.inj (Option.some.inj written)]
      simp only [Entry.lines, List.flatten_singleton]

theorem exists_entries {gen : MsgType → ℤ → Outcome}
    (inner : ∀ msg text, gen msg (indent + 2) = some (.ok text) →
      ∃ entries, AreEntries table msg.field entries ∧ text = (linesOf (indent + 2) entries).flatten)
    (written : genFields table gen fields indent = some (.ok text)) :
    ∃ entries, AreEntries table fields entries ∧ text = (linesOf indent entries).flatten := by
  induction fields generalizing text with
  | nil =>
    refine ⟨[], .nil, ?_⟩
    rw [← Except.ok.inj (Option.some.inj written)]
    rfl
  | cons field rest ih =>
    obtain ⟨front, back, single, later, -⟩ := andThen_eq_ok.mp written
    obtain ⟨_, last, -, others, -⟩ := andThen_eq_ok.mp later
    obtain ⟨entry, isEntry, rfl⟩ := exists_entry inner single
    obtain ⟨entries, are, rfl⟩ := ih others
    refine ⟨_, .cons isEntry are, ?_⟩
    exact Except.ok.inj (Option.some.inj (written.symm.trans (genFields_cons_of_ok single others)))

/-- **What `gen_code` writes** is the lines of the entries of the type. -/
theorem genCode_ok_iff : (∃ fuel, genCode table fuel msg indent = some (.ok text)) ↔
    ∃ entries, AreEntries table msg.field entries ∧ text = (linesOf indent entries).flatten := by
  constructor
  · rintro ⟨fuel, written⟩
    induction fuel generalizing msg indent text with
    | zero => cases written
    | succ fuel ih => exact exists_entries (fun msg text below => ih below) written
  · rintro ⟨entries, are, rfl⟩
    obtain ⟨fuel, written⟩ := are.written indent
    exact ⟨fuel + 1, written⟩

theorem allNamed_append (first : AllNamed entries) (rest : AllNamed entries') : AllNamed (entries ++ entries') := by
  induction entries with
  | nil => exact rest
  | cons entry entries ih =>
    unfold AllNamed at first
    rw [List.cons_append, AllNamed]
    exact ⟨first.1, ih first.2⟩

mutual

theorem IsEntry.named (words : ∀ name msg, table name = some msg → ∀ field ∈ msg.field, IsWord field.name) :
    ∀ {field : FieldDesc} {entry : Entry}, IsEntry table field entry → IsWord field.name → entry.Named
  | _, _, .number _, word => word
  | _, _, .string _, word => word
  | _, _, .message targets inner, word => ⟨word, AreEntries.named words inner (words _ _ targets.2)⟩

theorem AreEntries.named (words : ∀ name msg, table name = some msg → ∀ field ∈ msg.field, IsWord field.name) :
    ∀ {fields : List FieldDesc} {entries : List Entry}, AreEntries table fields entries →
      (∀ field ∈ fields, IsWord field.name) → AllNamed entries
  | _, _, .nil, _ => trivial
  | _, _, .cons first others, all => by
    obtain ⟨word, rest⟩ := List.forall_mem_cons.mp all
    have entry := IsEntry.named words first word
    refine allNamed_append ?_ (AreEntries.named words others rest)
    split_ifs
    · exact ⟨entry, entry, trivial⟩
    · exact ⟨entry, trivial⟩

end

theorem rootType_mem {messages : List MsgType} {rootConf : Text} (found : rootType messages rootConf = some msg) :
    msg ∈ messages := by
  have all : ∀ (messages : List MsgType) (root : Option MsgType),
      messages.foldl (fun root msg => if msg.name = rootConf then some msg else root) root = some msg →
        msg ∈ messages ∨ root = some msg := by
    intro messages
    induction messages with
    | nil => exact fun root same => .inr same
    | cons first messages ih =>
      intro root same
      rcases ih _ same with later | here
      · exact .inl (List.mem_cons_of_mem _ later)
      · dsimp only at here
        split_ifs at here
        · rw [Option.some.inj here]
          exact .inl List.mem_cons_self
        · exact .inr here
  exact (all messages _ found).resolve_right nofun

end Written

/-- **The template of a root type**, where the names of fields are words: one is written exactly when the root type is
found and its fields have entries, and read back it has these entries. -/
theorem template_reads_back (messages : List MsgType) (rootConf : Text)
    (words : ∀ msg ∈ messages, ∀ field ∈ msg.field, IsWord field.name) :
    (∀ fuel text, handleProto messages rootConf fuel = some (.ok text) → ∃ root entries,
      rootType messages rootConf = some root ∧ AreEntries (allMsg messages) root.field entries ∧
        readConf text = some entries) ∧
    ∀ root entries, rootType messages rootConf = some root → AreEntries (allMsg messages) root.field entries →
      ∃ fuel text, handleProto messages rootConf fuel = some (.ok text) ∧ readConf text = some entries := by
  have named : ∀ {root : MsgType} {entries : List Entry}, rootType messages rootConf = some root →
      AreEntries (allMsg messages) root.field entries → AllNamed entries :=
    fun found are => are.named (fun _ _ here => words _ (allMsg_mem here)) (words _ (rootType_mem found))
  constructor
  · intro fuel text written
    unfold handleProto at written
    cases found : rootType messages rootConf with
    | none =>
      rw [found] at written
      cases written
    | some root =>
      rw [found] at written
      obtain ⟨entries, are, rfl⟩ := genCode_ok_iff.mp ⟨fuel, written⟩
      exact ⟨root, entries, rfl, are, readConf_linesOf (named found are)⟩
  · intro root entries found are
    obtain ⟨fuel, written⟩ := genCode_ok_iff.mpr ⟨entries, are, @rfl _ (linesOf 0 entries).flatten⟩
    refine ⟨fuel, (linesOf 0 entries).flatten, ?_, readConf_linesOf (named found are)⟩
    unfold handleProto
    rw [found]
    exact written

/-- A deck has a title and cards. -/
def deckTypes : List MsgType :=
  [⟨"Card".toList, [⟨"id".toList, .other, false, []⟩]⟩,
    ⟨"Deck".toList, [⟨"title".toList, .string, false, []⟩, ⟨"cards".toList, .message, true, ".ns.Card".toList⟩]⟩]

theorem template_reads_back_deck : ∃ fuel text, handleProto deckTypes "Deck".toList fuel = some (.ok text) ∧
    readConf text = some [.string "title".toList, .message "cards".toList [.number "id".toList],
      .message "cards".toList [.number "id".toList]] := by
  have words : ∀ msg ∈ deckTypes, ∀ field ∈ msg.field, IsWord field.name := by decide +kernel
  have card : Targets (allMsg deckTypes) ⟨"cards".toList, .message, true, ".ns.Card".toList⟩
      ⟨"Card".toList, [⟨"id".toList, .other, false, []⟩]⟩ := ⟨rfl, by decide +kernel⟩
  have root : rootType deckTypes "Deck".toList = some ⟨"Deck".toList,
      [⟨"title".toList, .string, false, []⟩, ⟨"cards".toList, .message, true, ".ns.Card".toList⟩]⟩ := by
    decide +kernel
  have cards : AreEntries (allMsg deckTypes) [⟨"id".toList, .other, false, []⟩] [.number "id".toList] :=
    .cons (.number rfl) .nil
  exact (template_reads_back deckTypes "Deck".toList words).2 _ _ root
    (.cons (.string rfl) (.cons (.message card cards) .nil))

end Yarf.Tools
