/-
**The configuration template** (`proto2conf.py`).

`gen_code` writes the fields of a message type, and for a field of a message type the fields of that type, which it
looks up by the last part of the type's name. Nothing bounds the descent: a type that leads back to itself is
followed for ever, unless the lookup of an earlier field fails. Here `gen_code` has the depth it may descend to
as fuel, and no result without.

* `genCode_mono` — with more fuel the result is the same;
* `sound_of_genCode`, `genCode_of_sound` — which types have a template;
* `genCode_ends_iff_acc` — the descent;
* `template_ends_iff` — which types have an end.
-/

import Yarf.Lib.Descent
import Yarf.Tools.ReadProto

namespace Yarf.Tools

open Lib Relation

/-! ### The program -/

/-- `field.type`, as far as it is told apart -/
inductive FieldType
  | message
  | string
  | other
  deriving DecidableEq

/-- A `FieldDescriptorProto`. -/
structure FieldDesc where
  name : Text
  type : FieldType
  /-- `label == LABEL_REPEATED` -/
  repeated : Bool
  typeName : Text
  deriving DecidableEq

/-- A `DescriptorProto`. -/
structure MsgType where
  name : Text
  field : List FieldDesc
  deriving DecidableEq

/-- The exceptions. -/
inductive GenFault
  /-- `g_all_msg[field_type]` -/
  | keyError
  /-- `root_conf.field` of `None` -/
  | attributeError
  deriving DecidableEq

/-- `g_all_msg` -/
abbrev AllMsg := Text → Option MsgType

/-- The loop of `handle_proto` over the message types: `g_all_msg` -/
def allMsg (messages : List MsgType) : AllMsg :=
  messages.foldl (fun table msg => Function.update table msg.name (some msg)) fun _ => none

/-- The same loop: `root_type` -/
def rootType (messages : List MsgType) (rootConf : Text) : Option MsgType :=
  messages.foldl (fun root msg => if msg.name = rootConf then some msg else root) none

/-- `conf_single_field`, `conf_string_field`, `conf_struct_field_begin`, `conf_struct_field_end` -/
def confSingleField (field : Text) : Text := field ++ ": 0 \n".toList

def confStringField (field : Text) : Text := field ++ ": \"\" \n".toList

def confStructFieldBegin (field : Text) : Text := field ++ ": \x7b\n".toList

def confStructFieldEnd : Text := "\x7d\n".toList

/-- One space for each of `range(1, indent)` -/
def spaces (indent : ℤ) : Text := List.replicate (indent - 1).toNat ' '

/-- The last part of `type_name.split('.')` -/
def fieldType (field : FieldDesc) : Text := (field.typeName.splitOn '.').getLastD []

/-- What a call comes to: `none` if it does not end. -/
abbrev Outcome := Option (Except GenFault Text)

/-- One piece of text and then another: `ret + …` -/
def andThen (first rest : Outcome) : Outcome :=
  match first with
  | none => none
  | some (.error fault) => some (.error fault)
  | some (.ok text) => rest.map (Except.map (text ++ ·))

/-- `gen_single_code(field, indent)`, over the calls of `gen_code`. The values of `g_all_msg` are not `None`. -/
def genSingleCode (table : AllMsg) (gen : MsgType → ℤ → Outcome) (field : FieldDesc) (indent : ℤ) : Outcome :=
  match field.type with
  | .message =>
    match table (fieldType field) with
    | none => some (.error .keyError)
    | some msg =>
      andThen (some (.ok (spaces indent ++ confStructFieldBegin field.name)))
        (andThen (gen msg (indent + 2)) (some (.ok (spaces indent ++ confStructFieldEnd))))
  | .string => some (.ok (spaces indent ++ confStringField field.name))
  | .other => some (.ok (spaces indent ++ confSingleField field.name))

/-- The loop of `gen_code` over the fields. -/
def genFields (table : AllMsg) (gen : MsgType → ℤ → Outcome) : List FieldDesc → ℤ → Outcome
  | [], _ => some (.ok [])
  | field :: rest, indent =>
    andThen (genSingleCode table gen field indent)
      (andThen (if field.repeated then genSingleCode table gen field indent else some (.ok []))
        (genFields table gen rest indent))

/-- `gen_code(root_conf, indent)` -/
def genCode (table : AllMsg) : ℕ → MsgType → ℤ → Outcome
  | 0, _, _ => none
  | fuel + 1, root, indent => genFields table (genCode table fuel) root.field indent

/-- `handle_proto` behind `get_protodesc`: what is written -/
def handleProto (messages : List MsgType) (rootConf : Text) (fuel : ℕ) : Outcome :=
  match rootType messages rootConf with
  | none => some (.error .attributeError)
  | some root => genCode (allMsg messages) fuel root 0

/-! ### What types refer to -/

section References

variable (table : AllMsg)

/-- The field is of this message type, as it is looked up. -/
def Targets (field : FieldDesc) (msg : MsgType) : Prop :=
  field.type = .message ∧ table (fieldType field) = some msg

def Refers (msg target : MsgType) : Prop := ∃ field ∈ msg.field, Targets table field target

/-- From this type on, every type is found and none leads back to itself. -/
def Sound (msg : MsgType) : Prop :=
  ∀ below, ReflTransGen (Refers table) msg below →
    (∀ field ∈ below.field, field.type = .message → ∃ target, Targets table field target) ∧
      ¬TransGen (Refers table) below below

def SoundField (field : FieldDesc) : Prop :=
  field.type = .message → ∃ target, Targets table field target ∧ Sound table target

/-- A field of the one type is of the other, and the fields in front of it are sound. -/
def Leads (msg target : MsgType) : Prop :=
  ∃ before field after, msg.field = before ++ field :: after ∧ Targets table field target ∧
    ∀ earlier ∈ before, SoundField table earlier

/-- No type that leads back to itself is led to from this one. -/
def NoCycle (root : MsgType) : Prop :=
  ∀ msg, ReflTransGen (Leads table) root msg → ¬TransGen (Leads table) msg msg

end References

/-! ### Pieces -/

section Pieces

variable {first rest : Outcome} {text : Text}

theorem andThen_ok_iff : (∃ text, andThen first rest = some (.ok text)) ↔
    (∃ text, first = some (.ok text)) ∧ ∃ text, rest = some (.ok text) := by
  match first with
  | none => simp [andThen]
  | some (.error fault) => simp [andThen]
  | some (.ok text) =>
    match rest with
    | none => simp [andThen]
    | some (.error fault) => simp [andThen, Except.map]
    | some (.ok text') => simp [andThen, Except.map]

/-- Two pieces have an end when the first has, and behind a first that is written the rest has. -/
theorem andThen_ends_iff : andThen first rest ≠ none ↔
    first ≠ none ∧ ((∃ text, first = some (.ok text)) → rest ≠ none) := by
  match first with
  | none => simp [andThen]
  | some (.error fault) => simp [andThen]
  | some (.ok text) => simp [andThen]

/-- The one result is the other if there is one. -/
def Outcome.Le (outcome other : Outcome) : Prop := ∀ result, outcome = some result → other = some result

theorem andThen_mono {first' rest' : Outcome} (front : first.Le first') (back : rest.Le rest') :
    (andThen first rest).Le (andThen first' rest') := by
  intro result some
  match first with
  | none => cases some
  | .some (.error fault) =>
    rw [front _ rfl]
    exact some
  | .some (.ok text) =>
    rw [front _ rfl]
    obtain ⟨piece, found, same⟩ := Option.map_eq_some_iff.mp some
    exact Option.map_eq_some_iff.mpr ⟨piece, back _ found, same⟩

end Pieces

/-! ### Fields -/

section Fields

variable {table : AllMsg} {gen gen' : MsgType → ℤ → Outcome} {field : FieldDesc}
  {fields rest before after : List FieldDesc} {indent : ℤ} {msg target : MsgType}

theorem Targets.unique (targets : Targets table field msg) (targets' : Targets table field target) :
    msg = target :=
  Option.some.inj (targets.2.symm.trans targets'.2)

/-- A field that is not of a message type, or not of one that is found, has an end. -/
theorem genSingleCode_of_not_targets (gen : MsgType → ℤ → Outcome) (indent : ℤ)
    (none : ∀ msg, ¬Targets table field msg) :
    (field.type = .message ∧ genSingleCode table gen field indent = some (.error .keyError)) ∨
      field.type ≠ .message ∧ ∃ text, genSingleCode table gen field indent = some (.ok text) := by
  unfold genSingleCode
  cases kind : field.type with
  | message =>
    cases found : table (fieldType field) with
    | none => exact .inl ⟨rfl, rfl⟩
    | some msg => exact absurd ⟨kind, found⟩ (none msg)
  | string => exact .inr ⟨nofun, _, rfl⟩
  | other => exact .inr ⟨nofun, _, rfl⟩

theorem genSingleCode_of_targets (targets : Targets table field msg) : genSingleCode table gen field indent
    = andThen (some (.ok (spaces indent ++ confStructFieldBegin field.name)))
        (andThen (gen msg (indent + 2)) (some (.ok (spaces indent ++ confStructFieldEnd)))) := by
  unfold genSingleCode
  rw [targets.1]
  dsimp only
  rw [targets.2]

/-- What is written for a field. -/
theorem genSingleCode_ok_iff : (∃ text, genSingleCode table gen field indent = some (.ok text)) ↔
    (field.type = .message → ∃ msg, Targets table field msg ∧ ∃ text, gen msg (indent + 2) = some (.ok text)) := by
  by_cases found : ∃ msg, Targets table field msg
  · obtain ⟨msg, targets⟩ := found
    rw [genSingleCode_of_targets targets, andThen_ok_iff, andThen_ok_iff]
    constructor
    · exact fun written _ => ⟨msg, targets, written.2.1⟩
    · intro written
      obtain ⟨msg', targets', text, inner⟩ := written targets.1
      rw [← targets.unique targets'] at inner
      exact ⟨⟨_, rfl⟩, ⟨text, inner⟩, _, rfl⟩
  · rcases genSingleCode_of_not_targets gen indent (not_exists.mp found) with
      ⟨kind, result⟩ | ⟨kind, result⟩
    · rw [result]
      refine iff_of_false ?_ fun written => found ((written kind).imp fun _ both => both.1)
      rintro ⟨text, wrong⟩
      cases wrong
    · exact iff_of_true result fun same => absurd same kind

theorem genSingleCode_ends_iff : genSingleCode table gen field indent ≠ none ↔
    ∀ msg, Targets table field msg → gen msg (indent + 2) ≠ none := by
  by_cases found : ∃ msg, Targets table field msg
  · obtain ⟨msg, targets⟩ := found
    rw [genSingleCode_of_targets targets, andThen_ends_iff, andThen_ends_iff]
    constructor
    · intro ends msg' targets'
      rw [← targets.unique targets']
      exact (ends.2 ⟨_, rfl⟩).1
    · exact fun ends => ⟨nofun, fun _ => ⟨ends msg targets, nofun⟩⟩
  · have never := not_exists.mp found
    refine iff_of_true ?_ fun msg targets => absurd targets (never msg)
    rcases genSingleCode_of_not_targets gen indent never with ⟨-, result⟩ | ⟨-, text, result⟩ <;>
      rw [result] <;> exact nofun

theorem genSingleCode_mono (more : ∀ msg indent, (gen msg indent).Le (gen' msg indent)) :
    (genSingleCode table gen field indent).Le (genSingleCode table gen' field indent) := by
  by_cases found : ∃ msg, Targets table field msg
  · obtain ⟨msg, targets⟩ := found
    rw [genSingleCode_of_targets targets, genSingleCode_of_targets targets]
    exact andThen_mono (fun _ same => same) (andThen_mono (more msg _) fun _ same => same)
  · unfold genSingleCode
    intro result same
    cases kind : field.type with
    | message =>
      rw [kind] at same
      cases lookup : table (fieldType field) with
      | none => rwa [lookup] at same
      | some msg => exact absurd ⟨msg, kind, lookup⟩ found
    | string => rwa [kind] at same
    | other => rwa [kind] at same

theorem genFields_cons_ok_iff : (∃ text, genFields table gen (field :: rest) indent = some (.ok text)) ↔
    (∃ text, genSingleCode table gen field indent = some (.ok text)) ∧
      ∃ text, genFields table gen rest indent = some (.ok text) := by
  rw [genFields, andThen_ok_iff, andThen_ok_iff]
  refine and_congr_right fun written => and_iff_right ?_
  split_ifs
  · exact written
  · exact ⟨_, rfl⟩

/-- The second time, a field is written as the first time. -/
theorem genFields_cons_ends_iff : genFields table gen (field :: rest) indent ≠ none ↔
    genSingleCode table gen field indent ≠ none ∧
      ((∃ text, genSingleCode table gen field indent = some (.ok text)) →
        genFields table gen rest indent ≠ none) := by
  rw [genFields, andThen_ends_iff, andThen_ends_iff]
  refine and_congr_right fun ends => forall_congr' fun written => ?_
  have again : ∃ text, (if field.repeated then genSingleCode table gen field indent else some (.ok []))
      = some (.ok text) := by
    split_ifs
    · exact written
    · exact ⟨_, rfl⟩
  obtain ⟨text, same⟩ := again
  rw [same]
  exact ⟨fun both => both.2 ⟨text, rfl⟩, fun ends => ⟨nofun, fun _ => ends⟩⟩

theorem genFields_ok_iff : (∃ text, genFields table gen fields indent = some (.ok text)) ↔
    ∀ field ∈ fields, ∃ text, genSingleCode table gen field indent = some (.ok text) := by
  induction fields with
  | nil => exact iff_of_true ⟨_, rfl⟩ (List.forall_mem_nil _)
  | cons field rest ih => rw [genFields_cons_ok_iff, ih, List.forall_mem_cons]

theorem genFields_mono (more : ∀ msg indent, (gen msg indent).Le (gen' msg indent)) :
    (genFields table gen fields indent).Le (genFields table gen' fields indent) := by
  induction fields with
  | nil => exact fun _ same => same
  | cons field rest ih =>
    refine andThen_mono (genSingleCode_mono more) (andThen_mono ?_ ih)
    split_ifs
    · exact genSingleCode_mono more
    · exact fun _ same => same

/-- A field is come to when those in front of it are written if they have an end. -/
theorem genFields_reaches (ends : genFields table gen (before ++ field :: after) indent ≠ none)
    (passed : ∀ earlier ∈ before, genSingleCode table gen earlier indent ≠ none →
      ∃ text, genSingleCode table gen earlier indent = some (.ok text)) :
    genSingleCode table gen field indent ≠ none := by
  induction before with
  | nil => exact (genFields_cons_ends_iff.mp ends).1
  | cons first before ih =>
    obtain ⟨front, back⟩ := genFields_cons_ends_iff.mp ends
    exact ih (back (passed first List.mem_cons_self front)) fun earlier member =>
      passed earlier (List.mem_cons_of_mem _ member)

end Fields

/-! ### The descent -/

section Descent

variable {table : AllMsg} {fuel fuel' : ℕ} {msg target : MsgType} {indent : ℤ} {text : Text}

/-- **With more fuel the result is the same.** -/
theorem genCode_mono (more : fuel ≤ fuel') (msg : MsgType) (indent : ℤ) :
    (genCode table fuel msg indent).Le (genCode table fuel' msg indent) := by
  induction fuel generalizing fuel' msg indent with
  | zero => exact nofun
  | succ fuel ih =>
    obtain ⟨fuel', rfl⟩ := Nat.exists_eq_add_of_lt more
    unfold genCode
    exact genFields_mono fun msg indent => ih (by omega) msg indent

theorem Outcome.Le.ends {outcome other : Outcome} (le : outcome.Le other) (ends : outcome ≠ none) :
    other ≠ none := by
  obtain ⟨result, same⟩ := Option.ne_none_iff_exists'.mp ends
  rw [le result same]
  exact nofun

/-- **A type is sound when its fields are.** -/
theorem sound_iff : Sound table msg ↔ ∀ field ∈ msg.field, SoundField table field := by
  constructor
  · intro sound field member kind
    obtain ⟨target, targets⟩ := (sound msg .refl).1 field member kind
    exact ⟨target, targets, fun below reaches => sound below (.head ⟨field, member, targets⟩ reaches)⟩
  · intro fields
    have next : ∀ target, Refers table msg target → Sound table target := by
      rintro target ⟨field, member, targets⟩
      obtain ⟨target', targets', sound⟩ := fields field member targets.1
      rwa [targets.unique targets']
    intro below reaches
    rcases ReflTransGen.cases_head reaches with same | ⟨target, refers, rest⟩
    · rw [← same]
      refine ⟨fun field member kind => (fields field member kind).imp fun _ both => both.1, fun cycle => ?_⟩
      obtain ⟨target, refers, back⟩ := TransGen.head'_iff.mp cycle
      exact (next target refers target .refl).2 (TransGen.tail' back refers)
    · exact next target refers below rest

/-- A type that has a template is sound. -/
theorem sound_of_genCode (written : genCode table fuel msg indent = some (.ok text)) : Sound table msg := by
  induction fuel generalizing msg indent text with
  | zero => cases written
  | succ fuel ih =>
    refine sound_iff.mpr fun field member kind => ?_
    unfold genCode at written
    obtain ⟨target, targets, inner, below⟩ :=
      genSingleCode_ok_iff.mp (genFields_ok_iff.mp ⟨text, written⟩ field member) kind
    exact ⟨target, targets, ih below⟩

/-- A sound field that has an end is written. -/
theorem genSingleCode_of_sound {gen : MsgType → ℤ → Outcome} {field : FieldDesc}
    (written : ∀ msg, Sound table msg → gen msg (indent + 2) ≠ none →
      ∃ text, gen msg (indent + 2) = some (.ok text))
    (sound : SoundField table field) (ends : genSingleCode table gen field indent ≠ none) :
    ∃ text, genSingleCode table gen field indent = some (.ok text) := by
  refine genSingleCode_ok_iff.mpr fun kind => ?_
  obtain ⟨target, targets, below⟩ := sound kind
  exact ⟨target, targets, written target below (genSingleCode_ends_iff.mp ends target targets)⟩

/-- A sound type that has an end has a template. -/
theorem genCode_of_sound (sound : Sound table msg) (ends : genCode table fuel msg indent ≠ none) :
    ∃ text, genCode table fuel msg indent = some (.ok text) := by
  induction fuel generalizing msg indent with
  | zero => exact absurd rfl ends
  | succ fuel ih =>
    unfold genCode at ends ⊢
    have fields := sound_iff.mp sound
    generalize msg.field = all at ends fields ⊢
    induction all with
    | nil => exact ⟨_, rfl⟩
    | cons field rest ih' =>
      obtain ⟨front, back⟩ := genFields_cons_ends_iff.mp ends
      obtain ⟨here, later⟩ := List.forall_mem_cons.mp fields
      have first := genSingleCode_of_sound (fun msg sound ends => ih sound ends) here front
      exact genFields_cons_ok_iff.mpr ⟨first, ih' (back first) later⟩

/-- **The descent.** A type has an end when `Leads` cannot be followed from it for ever, and only then. -/
theorem genCode_ends_iff_acc (indent : ℤ) :
    (∃ fuel, genCode table fuel msg indent ≠ none) ↔ Acc (flip (Leads table)) msg := by
  constructor
  · rintro ⟨fuel, ends⟩
    induction fuel generalizing msg indent with
    | zero => exact absurd rfl ends
    | succ fuel ih =>
      refine ⟨_, fun target leads => ?_⟩
      obtain ⟨before, field, after, whole, targets, sound⟩ := leads
      unfold genCode at ends
      rw [whole] at ends
      have reached := genFields_reaches ends fun earlier member =>
        genSingleCode_of_sound (fun _ sound => genCode_of_sound sound) (sound earlier member)
      exact ih _ (genSingleCode_ends_iff.mp reached target targets)
  · intro acc
    induction acc generalizing indent with
    | intro msg _ ih =>
      -- the rest of the fields, behind sound ones
      have rest : ∀ fields before, msg.field = before ++ fields → (∀ earlier ∈ before, SoundField table earlier) →
          ∃ fuel, genFields table (genCode table fuel) fields indent ≠ none := by
        intro fields
        induction fields with
        | nil => exact fun _ _ _ => ⟨0, nofun⟩
        | cons field fields ih' =>
          intro before whole sound
          have single : ∃ fuel, genSingleCode table (genCode table fuel) field indent ≠ none := by
            by_cases found : ∃ target, Targets table field target
            · obtain ⟨target, targets⟩ := found
              obtain ⟨fuel, ends⟩ := ih target ⟨before, field, fields, whole, targets, sound⟩ (indent + 2)
              refine ⟨fuel, genSingleCode_ends_iff.mpr fun target' targets' => ?_⟩
              rwa [← targets.unique targets']
            · exact ⟨0, genSingleCode_ends_iff.mpr fun target targets => absurd ⟨target, targets⟩ found⟩
          obtain ⟨fuel, front⟩ := single
          by_cases written : ∃ text, genSingleCode table (genCode table fuel) field indent = some (.ok text)
          · have here : SoundField table field := by
              intro kind
              obtain ⟨target, targets, text, below⟩ := genSingleCode_ok_iff.mp written kind
              exact ⟨target, targets, sound_of_genCode below⟩
            obtain ⟨fuel', back⟩ := ih' (before ++ [field]) (whole.trans (List.append_cons _ _ _))
              (List.forall_mem_append.mpr ⟨sound, List.forall_mem_singleton.mpr here⟩)
            refine ⟨max fuel fuel', genFields_cons_ends_iff.mpr ⟨?_, fun _ => ?_⟩⟩
            · exact (genSingleCode_mono fun msg => genCode_mono (le_max_left _ _) msg).ends front
            · exact (genFields_mono fun msg => genCode_mono (le_max_right _ _) msg).ends back
          · exact ⟨fuel, genFields_cons_ends_iff.mpr ⟨front, fun wrong => absurd wrong written⟩⟩
      obtain ⟨fuel, ends⟩ := rest msg.field [] rfl (List.forall_mem_nil _)
      exact ⟨fuel + 1, ends⟩

end Descent

/-! ### The types of a file -/

section File

variable {messages : List MsgType} {name : Text} {msg root target : MsgType}

/-- `g_all_msg` has types of the file only. -/
theorem allMsg_mem (found : allMsg messages name = some msg) : msg ∈ messages := by
  have all : ∀ (messages : List MsgType) (table : AllMsg),
      messages.foldl (fun (table : AllMsg) (msg : MsgType) => Function.update table msg.name (some msg)) table name
        = some msg → msg ∈ messages ∨ table name = some msg := by
    intro messages
    induction messages with
    | nil => exact fun table same => .inr same
    | cons first messages ih =>
      intro table same
      rcases ih _ same with later | here
      · exact .inl (List.mem_cons_of_mem _ later)
      · dsimp only at here
        by_cases named : name = first.name
        · rw [named, Function.update_self] at here
          rw [Option.some.inj here]
          exact .inl List.mem_cons_self
        · rw [Function.update_of_ne named] at here
          exact .inr here
  exact (all messages _ found).resolve_right nofun

theorem Leads.mem (leads : Leads (allMsg messages) msg target) : target ∈ messages := by
  obtain ⟨before, field, after, -, targets, -⟩ := leads
  exact allMsg_mem targets.2

end File

/-- **The templates of a file.** `gen_code` has an end for a type, and `handle_proto` for the name of a root type,
exactly when no type that leads back to itself is led to from it. -/
theorem template_ends_iff (messages : List MsgType) :
    (∀ root indent, (∃ fuel, genCode (allMsg messages) fuel root indent ≠ none) ↔
      NoCycle (allMsg messages) root) ∧
    ∀ rootConf, (∃ fuel, handleProto messages rootConf fuel ≠ none) ↔
      ∀ root, rootType messages rootConf = some root → NoCycle (allMsg messages) root := by
  have types : ∀ root indent, (∃ fuel, genCode (allMsg messages) fuel root indent ≠ none) ↔
      NoCycle (allMsg messages) root := by
    intro root indent
    have finite : {msg | msg ∈ root :: messages}.Finite := List.finite_toSet _
    rw [genCode_ends_iff_acc]
    refine acc_iff_acyclic finite (fun msg _ target leads => ?_) List.mem_cons_self
    exact List.mem_cons_of_mem _ leads.mem
  refine ⟨types, fun rootConf => ?_⟩
  unfold handleProto
  cases found : rootType messages rootConf with
  | none => exact iff_of_true ⟨0, nofun⟩ nofun
  | some root =>
    rw [types root 0]
    constructor
    · intro none root' same
      rwa [← Option.some.inj same]
    · exact fun all => all root rfl

/-- A list of nodes: a number, and the next node. -/
def nodeType : MsgType :=
  ⟨"Node".toList, [⟨"value".toList, .other, false, []⟩, ⟨"next".toList, .message, false, ".ns.Node".toList⟩]⟩

theorem nodeType_targets :
    Targets (allMsg [nodeType]) ⟨"next".toList, .message, false, ".ns.Node".toList⟩ nodeType :=
  ⟨rfl, by decide +kernel⟩

/-- The template of a node is never finished. -/
theorem template_fails_node : ¬∃ fuel, handleProto [nodeType] "Node".toList fuel ≠ none := by
  have root : rootType [nodeType] "Node".toList = some nodeType := by decide +kernel
  have leads : Leads (allMsg [nodeType]) nodeType nodeType := by
    refine ⟨[_], _, [], rfl, nodeType_targets, ?_⟩
    exact List.forall_mem_singleton.mpr nofun
  unfold handleProto
  rw [root]
  intro ends
  exact not_transGen_of_acc ((genCode_ends_iff_acc 0).mp ends) (.single leads)

end Yarf.Tools
