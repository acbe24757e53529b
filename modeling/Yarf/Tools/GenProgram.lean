/-
**What the generators write.**

* `Notes` — what the text of a `.proto` file notes of its fields;
* `IsMember`, `FieldOk` — the member of a field, and which fields have one;
* `compile_eq_ok`, `accepted_iff` — the program of a descriptor, and which descriptors have one;
* `written_program` — what is in the two files afterwards;
* `written_clear` — no hole is left in them.
-/

import Yarf.Tools.BinTemplate
import Yarf.Tools.GenCode
import Yarf.Tools.ObjTemplate

namespace Yarf.Tools

open Lib

/-! ### Members -/

/-- What is noted of a field: its sizes, and the key option. -/
structure Notes where
  sized : (className fieldName max : Text) → Prop
  marked : (className fieldName : Text) → Prop

/-- What `find_field_opt` returns. -/
def foundNotes (fileLines : List Text) (structDict : Dict) : Notes where
  sized className fieldName max := ∃ key, findFieldOpt className fieldName fileLines structDict = .ok (some (max, key))
  marked className fieldName := ∃ max, findFieldOpt className fieldName fileLines structDict = .ok (some (max, true))

/-- The kind of a field's member; the sizes are annotated. -/
def IsKind (sized : Text → Prop) (field : FieldProto) : MemberKind → Prop
  | .simple => ¬field.repeated ∧ field.type ≠ .message ∧ field.type ≠ .string
  | .struct => ¬field.repeated ∧ field.type = .message
  | .string max => ¬field.repeated ∧ field.type = .string ∧ sized max
  | .simpleVec max => field.repeated ∧ (field.type ≠ .message ∧ field.type ≠ .string) ∧ sized max
  | .structVec max => field.repeated ∧ field.type = .message ∧ sized max

/-- The type and the name of the first field of the message: the first message of this name in the files. -/
def IsKeyOf (allProto : List FileProto) (ctype : Text) (key : Text × Text) : Prop :=
  ∃ before message after info rest, allProto.flatMap FileProto.messageType = before ++ message :: after ∧
    (∀ earlier ∈ before, earlier.name ≠ lastName [] ctype) ∧ message.name = lastName [] ctype ∧
    message.field = info :: rest ∧ key = (prototype2ctype info, info.name)

/-- The list is marked, and the script looks. -/
def Keyed (script : Script) (field : FieldProto) (marked : Prop) : Prop :=
  script.keyed ∧ field.repeated ∧ marked

/-- The key of a member. -/
def IsKey (script : Script) (allProto : List FileProto) (field : FieldProto) (marked : Prop) :
    Option (Text × Text) → Prop
  | none => ¬Keyed script field marked
  | some key => Keyed script field marked ∧ IsKeyOf allProto (prototype2ctype field) key

/-- The member of a field. -/
structure IsMember (script : Script) (allProto : List FileProto) (sized : Text → Prop) (marked : Prop)
    (field : FieldProto) (member : Member) : Prop where
  name : member.name = field.name
  ctype : member.ctype = prototype2ctype field
  kind : IsKind sized field member.kind
  key : IsKey script allProto field marked member.key

/-- The types that have a C++ type. -/
def Supported (field : FieldProto) : Prop :=
  match field.type with
  | .message => ∃ part ∈ field.typeName.splitOn '.', part ≠ [] ∧ part ≠ protoNs
  | .double | .uint64 | .int64 | .int32 | .bool | .string | .uint32 => True
  | _ => False

/-- The fields that have a member: of a supported type, no list of strings, with a size where one is needed and with
a key where one is looked for. -/
structure FieldOk (script : Script) (allProto : List FileProto) (sized : Text → Prop) (marked : Prop)
    (field : FieldProto) : Prop where
  supported : Supported field
  single : field.type = .string → ¬field.repeated
  size : field.repeated ∨ field.type = .string → ∃ max, sized max
  key : Keyed script field marked → ∃ key, IsKeyOf allProto (prototype2ctype field) key

section Members

variable {script : Script} {allProto : List FileProto} {fileLines : List Text} {structDict : Dict} {className : Text}
  {field : FieldProto} {member : Member} {sized : Text → Prop} {marked : Prop}

theorem IsKind.imp {sized' : Text → Prop} {kind : MemberKind} (made : IsKind sized field kind)
    (weaker : field.repeated ∨ field.type = .string → ∀ max, sized max → sized' max) : IsKind sized' field kind := by
  cases kind with
  | simple | struct => exact made
  | string max => exact ⟨made.1, made.2.1, weaker (Or.inr made.2.1) max made.2.2⟩
  | simpleVec max | structVec max => exact ⟨made.1, made.2.1, weaker (Or.inl made.1) max made.2.2⟩

theorem IsKey.congr {marked' : Prop} {key : Option (Text × Text)} (isKey : IsKey script allProto field marked key)
    (same : field.repeated → (marked ↔ marked')) : IsKey script allProto field marked' key := by
  have keyed : Keyed script field marked ↔ Keyed script field marked' :=
    and_congr_right fun _ => and_congr_right same
  cases key with
  | none => exact keyed.not.mp isKey
  | some key => exact ⟨keyed.mp isKey.1, isKey.2⟩

theorem foldl_joinName_eq_nil (parts : List Text) (fieldType : Text) :
    parts.foldl joinName fieldType = [] ↔ fieldType = [] ∧ ∀ part ∈ parts, part = [] ∨ part = protoNs := by
  induction parts generalizing fieldType with
  | nil => simp
  | cons part parts ih =>
    rw [List.foldl_cons, ih, List.forall_mem_cons, ← and_assoc]
    refine and_congr_left fun _ => ?_
    unfold joinName
    split_ifs with named filled
    · simp [filled]
    · simp [not_not.mp filled, named.1, named.2]
    · rw [not_and_or, not_not, not_not] at named
      exact (and_iff_left named).symm

theorem supported_iff : Supported field ↔ prototype2ctype field ≠ [] := by
  unfold Supported prototype2ctype
  cases field.type with
  | message =>
    rw [Ne, foldl_joinName_eq_nil]
    push Not
    simp
  | _ => simp

theorem unpackOpt_eq_ok {found : Except ProtoFault (Option (Text × Bool))} {opt : Text × Bool} :
    unpackOpt found = .ok opt ↔ found = .ok (some opt) := by
  cases found with
  | error fault => exact iff_of_false (fun wrong => by cases wrong) fun wrong => by cases wrong
  | ok found =>
    cases found with
    | none => exact iff_of_false (fun wrong => by cases wrong) fun wrong => by cases wrong
    | some other =>
      show Except.ok other = .ok opt ↔ Except.ok (some other) = .ok (some opt)
      rw [Except.ok.injEq, Except.ok.injEq, Option.some.injEq]

/-- What `find_key_info` finds. -/
theorem isKeyOf_iff {ctype : Text} {key : Text × Text} : IsKeyOf allProto ctype key ↔
    ∃ info, findKeyInfo allProto ctype = .ok info ∧ (prototype2ctype info, info.name) = key := by
  unfold IsKeyOf findKeyInfo
  constructor
  · rintro ⟨before, message, after, info, rest, split, earlier, name, fields, rfl⟩
    have found : (allProto.flatMap FileProto.messageType).find? (·.name = lastName [] ctype) = some message := by
      rw [List.find?_eq_some_iff_append]
      refine ⟨by simpa using name, before, after, split, fun other among => ?_⟩
      simpa using earlier other among
    refine ⟨info, ?_, rfl⟩
    rw [found]
    dsimp only
    rw [fields]
    rfl
  · rintro ⟨info, found, rfl⟩
    split at found
    · next message here =>
      obtain ⟨name, before, after, split, earlier⟩ := List.find?_eq_some_iff_append.mp here
      cases fields : message.field with
      | nil =>
        rw [fields] at found
        cases found
      | cons head rest =>
        rw [fields] at found
        obtain rfl := Except.ok.inj found
        refine ⟨before, message, after, head, rest, split, fun other among => ?_, by simpa using name, fields, rfl⟩
        simpa using earlier other among
    · cases found

theorem keyOf_eq_ok {keyopt : Bool} {key : Option (Text × Text)} (many : field.repeated)
    (same : marked ↔ keyopt = true) :
    keyOf script allProto (prototype2ctype field) keyopt = .ok key ↔ IsKey script allProto field marked key := by
  have keyed : Keyed script field marked ↔ (script.keyed && keyopt) = true := by
    simp [Keyed, many, same]
  unfold keyOf
  split_ifs with looked
  · rw [map_eq_ok]
    cases key with
    | none =>
      refine iff_of_false ?_ fun wrong => wrong (keyed.mpr looked)
      rintro ⟨info, -, wrong⟩
      cases wrong
    | some key =>
      simp only [Option.some.injEq]
      rw [← isKeyOf_iff]
      exact (and_iff_right (keyed.mpr looked)).symm
  · cases key with
    | none => exact iff_of_true rfl (keyed.not.mpr looked)
    | some key => exact iff_of_false (fun wrong => by cases wrong) fun wrong => looked (keyed.mp wrong.1)

theorem IsKind.vec {kind : MemberKind} (made : IsKind sized field kind) (many : field.repeated) :
    (field.type = .message ∧ ∃ max, sized max ∧ kind = .structVec max) ∨
      (field.type ≠ .message ∧ field.type ≠ .string ∧ ∃ max, sized max ∧ kind = .simpleVec max) := by
  cases kind with
  | simple | struct | string max => exact absurd many made.1
  | simpleVec max => exact Or.inr ⟨made.2.1.1, made.2.1.2, max, made.2.2, rfl⟩
  | structVec max => exact Or.inl ⟨made.2.1, max, made.2.2, rfl⟩

theorem IsKind.single {kind : MemberKind} (made : IsKind sized field kind) (single : ¬field.repeated) :
    (field.type = .message ∧ kind = .struct) ∨ (field.type = .string ∧ ∃ max, sized max ∧ kind = .string max) ∨
      (field.type ≠ .message ∧ field.type ≠ .string ∧ kind = .simple) := by
  cases kind with
  | simple => exact Or.inr (Or.inr ⟨made.2.1, made.2.2, rfl⟩)
  | struct => exact Or.inl ⟨made.2, rfl⟩
  | string max => exact Or.inr (Or.inl ⟨made.2.1, max, made.2.2, rfl⟩)
  | simpleVec max | structVec max => exact absurd made.1 single

/-- Only a list has a key. -/
theorem IsKey.none_of_single {key : Option (Text × Text)} (isKey : IsKey script allProto field marked key)
    (single : ¬field.repeated) : key = none := by
  cases key with
  | none => rfl
  | some key => exact absurd isKey.1.2.1 single

theorem isKey_none (single : ¬field.repeated) : IsKey script allProto field marked none :=
  fun keyed => single keyed.2.1

/-- The member of a list. -/
theorem vecMember_eq_ok {keyopt : Bool} {max : Text} {make : Text → MemberKind} (many : field.repeated)
    (same : marked ↔ keyopt = true) (kind : ∀ other, IsKind sized field other ↔ other = make max) :
    (keyOf script allProto (prototype2ctype field) keyopt).map (fun key =>
      (⟨field.name, prototype2ctype field, make max, key⟩ : Member)) = .ok member ↔
      IsMember script allProto sized marked field member := by
  rw [map_eq_ok]
  constructor
  · rintro ⟨key, found, rfl⟩
    exact ⟨rfl, rfl, (kind _).mpr rfl, (keyOf_eq_ok many same).mp found⟩
  · rintro ⟨name, ctype, made, isKey⟩
    refine ⟨member.key, (keyOf_eq_ok many same).mpr isKey, ?_⟩
    rw [← name, ← ctype, ← (kind _).mp made]

/-- The member of a field that is not a list. -/
theorem singleMember_eq_ok {made : MemberKind} (single : ¬field.repeated)
    (kind : ∀ other, IsKind sized field other ↔ other = made) :
    (Except.ok ⟨field.name, prototype2ctype field, made, none⟩ : Except CodeFault Member) = .ok member ↔
      IsMember script allProto sized marked field member := by
  rw [Except.ok.injEq]
  constructor
  · rintro rfl
    exact ⟨rfl, rfl, (kind _).mpr rfl, isKey_none single⟩
  · rintro ⟨name, ctype, isKind, isKey⟩
    rw [← name, ← ctype, ← (kind _).mp isKind, ← isKey.none_of_single single]

theorem memberOf_eq_ok : memberOf script allProto fileLines structDict className field = .ok member ↔
    Supported field ∧ IsMember script allProto ((foundNotes fileLines structDict).sized className field.name)
      ((foundNotes fileLines structDict).marked className field.name) field member := by
  have sized : ∀ max, (foundNotes fileLines structDict).sized className field.name max ↔
      ∃ key, unpackOpt (findFieldOpt className field.name fileLines structDict) = .ok (max, key) :=
    fun max => exists_congr fun key => unpackOpt_eq_ok.symm
  have marked : (foundNotes fileLines structDict).marked className field.name ↔
      ∃ max, unpackOpt (findFieldOpt className field.name fileLines structDict) = .ok (max, true) :=
    exists_congr fun max => unpackOpt_eq_ok.symm
  generalize (foundNotes fileLines structDict).sized className field.name = size at sized
  generalize (foundNotes fileLines structDict).marked className field.name = mark at marked
  unfold memberOf
  split_ifs with none
  · exact iff_of_false (fun wrong => by cases wrong) fun wrong => supported_iff.mp wrong.1 none
  rw [and_iff_right (supported_iff.mpr none)]
  unfold typedMember
  generalize unpackOpt (findFieldOpt className field.name fileLines structDict) = found at sized marked
  by_cases many : field.repeated
  · rw [if_pos many]
    cases found with
    | error fault =>
      refine iff_of_false (fun wrong => by cases wrong) fun wrong => ?_
      have unsized : ∀ max, ¬size max := by simp [sized]
      rcases wrong.kind.vec many with ⟨-, max, some, -⟩ | ⟨-, -, max, some, -⟩
      · exact unsized max some
      · exact unsized max some
    | ok opt =>
      obtain ⟨max, keyopt⟩ := opt
      have size' : ∀ other, size other ↔ other = max := by simp [sized, eq_comm]
      have same : mark ↔ keyopt = true := by simp [marked]
      dsimp only [Bind.bind, Except.bind]
      cases type : field.type with
      | string =>
        refine iff_of_false (fun wrong => by cases wrong) fun wrong => ?_
        rcases wrong.kind.vec many with ⟨other, -⟩ | ⟨-, other, -⟩
        · exact absurd (type.symm.trans other) (by decide)
        · exact other type
      | message =>
        refine vecMember_eq_ok many same fun other => ⟨fun made => ?_, ?_⟩
        · rcases made.vec many with ⟨-, max', sized', rfl⟩ | ⟨other, -⟩
          · rw [(size' max').mp sized']
          · exact absurd type other
        · rintro rfl
          exact ⟨many, type, (size' max).mpr rfl⟩
      | _ =>
        refine vecMember_eq_ok many same fun other => ⟨fun made => ?_, ?_⟩
        · rcases made.vec many with ⟨other, -⟩ | ⟨-, -, max', sized', rfl⟩
          · exact absurd (type.symm.trans other) (by decide)
          · rw [(size' max').mp sized']
        · rintro rfl
          exact ⟨many, by simp [type], (size' max).mpr rfl⟩
  · rw [if_neg many]
    cases type : field.type with
    | string =>
      cases found with
      | error fault =>
        refine iff_of_false (fun wrong => by cases wrong) fun wrong => ?_
        have unsized : ∀ max, ¬size max := by simp [sized]
        rcases wrong.kind.single many with ⟨other, -⟩ | ⟨-, max, some, -⟩ | ⟨-, other, -⟩
        · exact absurd (type.symm.trans other) (by decide)
        · exact unsized max some
        · exact other type
      | ok opt =>
        obtain ⟨max, keyopt⟩ := opt
        have size' : ∀ other, size other ↔ other = max := by simp [sized, eq_comm]
        refine singleMember_eq_ok many fun other => ⟨fun made => ?_, ?_⟩
        · rcases made.single many with ⟨other, -⟩ | ⟨-, max', sized', rfl⟩ | ⟨-, other, -⟩
          · exact absurd (type.symm.trans other) (by decide)
          · rw [(size' max').mp sized']
          · exact absurd type other
        · rintro rfl
          exact ⟨many, type, (size' max).mpr rfl⟩
    | message =>
      refine singleMember_eq_ok many fun other => ⟨fun made => ?_, ?_⟩
      · rcases made.single many with ⟨-, same⟩ | ⟨other, -⟩ | ⟨other, -⟩
        · exact same
        · exact absurd (type.symm.trans other) (by decide)
        · exact absurd type other
      · rintro rfl
        exact ⟨many, type⟩
    | _ =>
      refine singleMember_eq_ok many fun other => ⟨fun made => ?_, ?_⟩
      · rcases made.single many with ⟨other, -⟩ | ⟨other, -⟩ | ⟨-, -, same⟩
        · exact absurd (type.symm.trans other) (by decide)
        · exact absurd (type.symm.trans other) (by decide)
        · exact same
      · rintro rfl
        exact ⟨many, by simp [type]⟩

/-- Which fields have a member. -/
theorem exists_member : (∃ member, Supported field ∧ IsMember script allProto sized marked field member) ↔
    FieldOk script allProto sized marked field := by
  constructor
  · rintro ⟨member, supported, -, -, kind, isKey⟩
    refine ⟨supported, fun string many => ?_, fun needed => ?_, fun keyed => ?_⟩
    · rcases kind.vec many with ⟨other, -⟩ | ⟨-, other, -⟩
      · exact absurd (string.symm.trans other) (by decide)
      · exact other string
    · by_cases many : field.repeated
      · rcases kind.vec many with ⟨-, max, sized, -⟩ | ⟨-, -, max, sized, -⟩
        · exact ⟨max, sized⟩
        · exact ⟨max, sized⟩
      · have string := needed.resolve_left many
        rcases kind.single many with ⟨other, -⟩ | ⟨-, max, sized, -⟩ | ⟨-, other, -⟩
        · exact absurd (string.symm.trans other) (by decide)
        · exact ⟨max, sized⟩
        · exact absurd string other
    · cases made : member.key with
      | none =>
        rw [made] at isKey
        exact absurd keyed isKey
      | some key =>
        rw [made] at isKey
        exact ⟨key, isKey.2⟩
  · rintro ⟨supported, single, size, keys⟩
    have key : ∃ key, IsKey script allProto field marked key := by
      by_cases keyed : Keyed script field marked
      · obtain ⟨key, isKey⟩ := keys keyed
        exact ⟨some key, keyed, isKey⟩
      · exact ⟨none, keyed⟩
    have kind : ∃ kind, IsKind sized field kind := by
      by_cases many : field.repeated
      · obtain ⟨max, sized⟩ := size (Or.inl many)
        by_cases message : field.type = .message
        · exact ⟨.structVec max, many, message, sized⟩
        · exact ⟨.simpleVec max, many, ⟨message, fun string => single string many⟩, sized⟩
      · by_cases message : field.type = .message
        · exact ⟨.struct, many, message⟩
        by_cases string : field.type = .string
        · obtain ⟨max, sized⟩ := size (Or.inr string)
          exact ⟨.string max, many, string, sized⟩
        · exact ⟨.simple, many, message, string⟩
    obtain ⟨key, isKey⟩ := key
    obtain ⟨kind, isKind⟩ := kind
    exact ⟨⟨_, _, kind, key⟩, supported, rfl, rfl, isKind, isKey⟩

end Members

/-! ### Programs -/

/-- Every marked list has elements with a key: their message is in the files, and has a field. -/
def HasKeys (allProto : List FileProto) (notes : Notes) (desc : FileProto) : Prop :=
  ∀ message ∈ desc.messageType, ∀ field ∈ message.field, field.repeated → notes.marked message.name field.name →
    ∃ key, IsKeyOf allProto (prototype2ctype field) key

/-- The program of a descriptor: its classes and their members are those of the messages and of their fields. -/
structure IsProgram (script : Script) (allProto : List FileProto) (notes : Notes) (desc : FileProto)
    (program : Program) : Prop where
  ns : ∃ rest, desc.package.splitOn '.' = protoNs :: program.ns :: rest
  includes : program.includes = desc.dependency.map incPre
  classes : List.Forall₂ (fun message cls => cls.name = message.name ∧
    List.Forall₂ (fun field member => Supported field ∧ IsMember script allProto (notes.sized message.name field.name)
      (notes.marked message.name field.name) field member) message.field cls.members)
    desc.messageType program.classes

/-- What `gen_code` asks of its arguments. -/
structure Accepted (script : Script) (allProto : List FileProto) (notes : Notes) (parseInstruct : List Text)
    (desc : FileProto) : Prop where
  instructed : 2 ≤ parseInstruct.length
  package : ∃ ns rest, desc.package.splitOn '.' = protoNs :: ns :: rest
  fields : ∀ message ∈ desc.messageType, ∀ field ∈ message.field, FieldOk script allProto
    (notes.sized message.name field.name) (notes.marked message.name field.name) field

section Programs

variable {script : Script} {allProto : List FileProto} {notes : Notes} {fileLines : List Text} {structDict : Dict}
  {parseInstruct : List Text} {desc : FileProto} {program : Program} {message : MessageProto} {cls : Class}

theorem IsProgram.imp {notes' : Notes} (made : IsProgram script allProto notes desc program)
    (weaker : ∀ message ∈ desc.messageType, ∀ field ∈ message.field, field.repeated ∨ field.type = .string →
      ∀ max, notes.sized message.name field.name max → notes'.sized message.name field.name max)
    (same : ∀ message ∈ desc.messageType, ∀ field ∈ message.field, field.repeated →
      (notes.marked message.name field.name ↔ notes'.marked message.name field.name)) :
    IsProgram script allProto notes' desc program := by
  refine ⟨made.ns, made.includes, forall₂_imp (fun message among cls both => ?_) made.classes⟩
  refine ⟨both.1, forall₂_imp (fun field inside member both => ?_) both.2⟩
  obtain ⟨supported, name, ctype, kind, key⟩ := both
  exact ⟨supported, name, ctype, kind.imp (weaker message among field inside), key.congr (same message among field inside)⟩

theorem classOf_eq_ok : classOf script allProto fileLines structDict message = .ok cls ↔ cls.name = message.name ∧
    List.Forall₂ (fun field member => Supported field ∧ IsMember script allProto
      ((foundNotes fileLines structDict).sized message.name field.name)
      ((foundNotes fileLines structDict).marked message.name field.name) field member) message.field cls.members := by
  unfold classOf
  rw [map_eq_ok]
  simp only [mapM_eq_ok, memberOf_eq_ok]
  constructor
  · rintro ⟨members, all, rfl⟩
    exact ⟨rfl, all⟩
  · rintro ⟨name, all⟩
    refine ⟨cls.members, all, ?_⟩
    rw [← name]

/-- **The program of a descriptor.** -/
theorem compile_eq_ok : compile script allProto fileLines structDict parseInstruct desc = .ok program ↔
    2 ≤ parseInstruct.length ∧ IsProgram script allProto (foundNotes fileLines structDict) desc program := by
  unfold compile
  split_ifs with short
  · exact iff_of_false (fun wrong => by cases wrong) fun wrong => by omega
  have long : 2 ≤ parseInstruct.length := Nat.not_lt.mp short
  rw [and_iff_right long]
  have refused : ∀ {result : Except CodeFault Program} {fault : CodeFault}, result = .error fault →
      (∀ ns rest, desc.package.splitOn '.' ≠ protoNs :: ns :: rest) →
      (result = .ok program ↔ IsProgram script allProto (foundNotes fileLines structDict) desc program) := by
    rintro _ fault rfl none
    refine iff_of_false (fun wrong => by cases wrong) fun wrong => ?_
    obtain ⟨rest, split⟩ := wrong.ns
    exact none _ _ split
  rcases package : desc.package.splitOn '.' with _ | ⟨root, _ | ⟨ns, rest⟩⟩
  · exact refused rfl (by simp [package])
  · exact refused rfl (by simp [package])
  · by_cases apart : root ≠ protoNs
    · exact refused (if_pos apart) (by simp [package, apart])
    dsimp only
    rw [if_neg apart, map_eq_ok]
    simp only [mapM_eq_ok, classOf_eq_ok]
    constructor
    · rintro ⟨classes, all, rfl⟩
      exact ⟨⟨rest, by rw [package, not_not.mp apart]⟩, rfl, all⟩
    · rintro ⟨⟨rest', split⟩, includes, classes⟩
      refine ⟨program.classes, classes, ?_⟩
      have space : ns = program.ns := (List.cons.inj (List.cons.inj (package.symm.trans split)).2).1
      rw [space, ← includes]

/-- **Which descriptors have a program.** -/
theorem accepted_iff : Accepted script allProto notes parseInstruct desc ↔
    2 ≤ parseInstruct.length ∧ ∃ program, IsProgram script allProto notes desc program := by
  constructor
  · rintro ⟨instructed, ⟨ns, rest, package⟩, fields⟩
    have members : ∀ message ∈ desc.messageType, ∃ cls : Class, cls.name = message.name ∧
        List.Forall₂ (fun field member => Supported field ∧ IsMember script allProto
          (notes.sized message.name field.name) (notes.marked message.name field.name) field member)
          message.field cls.members := by
      intro message among
      obtain ⟨members, all⟩ := exists_forall₂.mpr fun field inside =>
        exists_member.mpr (fields message among field inside)
      exact ⟨⟨message.name, members⟩, rfl, all⟩
    obtain ⟨classes, all⟩ := exists_forall₂.mpr members
    exact ⟨instructed, ⟨ns, desc.dependency.map incPre, classes⟩, ⟨rest, package⟩, rfl, all⟩
  · rintro ⟨instructed, program, ⟨rest, package⟩, -, classes⟩
    refine ⟨instructed, ⟨_, rest, package⟩, fun message among field inside => ?_⟩
    obtain ⟨cls, -, all⟩ := exists_forall₂.mp ⟨_, classes⟩ message among
    exact exists_member.mp (exists_forall₂.mp ⟨_, all⟩ field inside)

end Programs

/-! ### The files -/

section Sizes

variable {fileLines : List Text} {structDict : Dict} {className fieldName max : Text}

/-- A size stands in one of the lines. -/
theorem findIn_subset {key : Bool} {numbers : List ℕ}
    (found : findIn fieldName fileLines numbers = .ok (some (max, key))) : ∃ line ∈ fileLines, max ⊆ line := by
  induction numbers with
  | nil => cases found
  | cons lineNo rest ih =>
    unfold findIn at found
    cases here : fileLines[lineNo]? with
    | none =>
      rw [here] at found
      cases found
    | some line =>
      rw [here] at found
      dsimp only at found
      split_ifs at found
      · exact ih found
      · exact ih found
      · cases word : find genKeyword line with
        | none =>
          rw [word] at found
          cases found
        | some idx =>
          rw [word] at found
          refine ⟨line, List.mem_of_getElem? here, ?_⟩
          dsimp only at found
          split at found
          · next first opt more pieces =>
            have same : first = max := congrArg Prod.fst (Option.some.inj (Except.ok.inj found))
            have piece : max ∈ (line.drop (idx + genKeyword.length)).splitOn '|' := by
              rw [pieces, same]
              exact List.mem_cons_self
            exact fun c member => List.mem_of_mem_drop (subset_of_mem_splitOn piece member)
          · cases found

theorem foundNotes_subset (sized : (foundNotes fileLines structDict).sized className fieldName max) :
    ∃ line ∈ fileLines, max ⊆ line := by
  obtain ⟨key, found⟩ := sized
  unfold findFieldOpt at found
  split at found
  · cases found
  · cases found
  · cases found
  · exact findIn_subset found

end Sizes

namespace Gen

/-- A member whose names and size have no letter of the holes. -/
structure PlainMember (member : Member) : Prop where
  name : '$' ∉ member.name
  ctype : '$' ∉ member.ctype
  size : '$' ∉ member.kind.max
  key : ∀ key, member.key = some key → '$' ∉ key.1 ∧ '$' ∉ key.2

/-- A program whose names and sizes have no letter of the holes. -/
structure PlainProgram (program : Program) : Prop where
  ns : '$' ∉ program.ns
  includes : ∀ pre ∈ program.includes, '$' ∉ pre
  classes : ∀ cls ∈ program.classes, '$' ∉ cls.name ∧ ∀ member ∈ cls.members, PlainMember member

structure Content.Clear (content : Content) : Prop where
  declare : '$' ∉ content.declare
  opt : '$' ∉ content.opt
  encode : '$' ∉ content.encode
  decode : '$' ∉ content.decode

section Clear

variable {script : Script} {allProto : List FileProto} {fileLines : List Text} {structDict : Dict}
  {filePre ns className : Text} {parseInstruct : List Text} {desc : FileProto} {member : Member} {cls : Class}
  {program : Program}

theorem kindContent_clear {values : String → Text} (sound : script.Sound) (clear : ∀ hole, '$' ∉ values hole)
    (kind : MemberKind) : (kindContent script values kind).Clear := by
  cases kind with
  | simple => exact ⟨sound.hSingleField.fill_clear clear, List.not_mem_nil,
      sound.ccEncodeSimpleField.fill_clear clear, sound.ccDecodeSimpleField.fill_clear clear⟩
  | struct => exact ⟨sound.hSingleField.fill_clear clear, List.not_mem_nil,
      sound.ccEncodeStructField.fill_clear clear, sound.ccDecodeStructField.fill_clear clear⟩
  | string => exact ⟨sound.hStringField.fill_clear clear, List.not_mem_nil,
      sound.ccEncodeStringField.fill_clear clear, sound.ccDecodeStringField.fill_clear clear⟩
  | simpleVec => exact ⟨sound.hVecField.fill_clear clear, sound.ccOptFunc.fill_clear clear,
      sound.ccEncodeSimpleVecField.fill_clear clear, sound.ccDecodeSimpleVecField.fill_clear clear⟩
  | structVec => exact ⟨sound.hVecField.fill_clear clear, sound.ccOptFunc.fill_clear clear,
      sound.ccEncodeStructVecField.fill_clear clear, sound.ccDecodeStructVecField.fill_clear clear⟩

theorem append_clear {front back : Text} (first : '$' ∉ front) (second : '$' ∉ back) : '$' ∉ front ++ back :=
  fun mark => (List.mem_append.mp mark).elim first second

theorem memberContent_clear (sound : script.Sound) (space : '$' ∉ ns) (named : '$' ∉ className)
    (plain : PlainMember member) : (memberContent script ns className member).Clear := by
  have values : ∀ {keyType keyName : Text}, '$' ∉ keyType → '$' ∉ keyName → ∀ hole,
      '$' ∉ fieldValues ns className member.ctype member.name member.kind.max keyType keyName hole := by
    intro keyType keyName keyTyped keyNamed hole
    by_cases size : hole = "max"
    · rw [size]
      exact plain.size
    · exact fieldValues_clear space named plain.ctype plain.name keyTyped keyNamed hole size
  have kind := kindContent_clear sound (values List.not_mem_nil List.not_mem_nil) member.kind
  unfold memberContent
  cases made : member.key with
  | none => exact kind
  | some key =>
    obtain ⟨keyTyped, keyNamed⟩ := plain.key key made
    have clear := values keyTyped keyNamed
    exact ⟨append_clear kind.declare (sound.hVecFieldMore.fill_clear clear),
      append_clear kind.opt (sound.ccAdditionalOptFunc.fill_clear clear), append_clear kind.encode List.not_mem_nil,
      append_clear kind.decode List.not_mem_nil⟩

theorem flatMap_clear {α : Type} {list : List α} {text : α → Text} (clear : ∀ a ∈ list, '$' ∉ text a) :
    '$' ∉ list.flatMap text := by
  rw [List.mem_flatMap]
  rintro ⟨a, among, here⟩
  exact clear a among here

theorem class_clear (sound : script.Sound) (space : '$' ∉ ns) (named : '$' ∉ cls.name)
    (plain : ∀ member ∈ cls.members, PlainMember member) :
    '$' ∉ declareClass script ns cls ∧ '$' ∉ defineClass script ns cls := by
  have frame := frameValues_clear space named List.not_mem_nil List.not_mem_nil
  have contents : ∀ content ∈ cls.members.map (memberContent script ns cls.name), content.Clear := by
    intro content among
    obtain ⟨member, inside, rfl⟩ := List.mem_map.mp among
    exact memberContent_clear sound space named (plain member inside)
  constructor
  · exact append_clear (append_clear (sound.hClassBegin.fill_clear frame)
      (flatMap_clear fun content among => (contents content among).declare)) (sound.hClassEnd.fill_clear frame)
  · exact append_clear (append_clear (flatMap_clear fun content among => (contents content among).opt)
      (append_clear (append_clear (sound.ccEncodeBegin.fill_clear frame)
        (flatMap_clear fun content among => (contents content among).encode)) (sound.ccEncodeEnd.fill_clear frame)))
      (append_clear (append_clear (sound.ccDecodeBegin.fill_clear frame)
        (flatMap_clear fun content among => (contents content among).decode)) (sound.codeDecodeEnd.fill_clear frame))

theorem files_clear (sound : script.Sound) (plain : PlainProgram program) (file : '$' ∉ filePre) :
    '$' ∉ header script filePre program ∧ '$' ∉ source script filePre program := by
  have name := macroName_plain plain.ns file
  have frame := fun {pre : Text} (clear : '$' ∉ pre) =>
    frameValues_clear plain.ns (List.not_mem_nil : '$' ∉ ([] : Text)) name clear
  have classes : ∀ cls ∈ program.classes,
      '$' ∉ declareClass script program.ns cls ∧ '$' ∉ defineClass script program.ns cls :=
    fun cls among => class_clear sound plain.ns (plain.classes cls among).1 (plain.classes cls among).2
  constructor
  · exact append_clear (append_clear (append_clear (append_clear (sound.hBegin.fill_clear (frame file))
      (flatMap_clear fun pre among => sound.hInclude.fill_clear (frame (plain.includes pre among))))
      (sound.hNsBegin.fill_clear (frame file))) (flatMap_clear fun cls among => (classes cls among).1))
      (sound.hEnd.fill_clear (frame file))
  · exact append_clear (sound.ccBegin.fill_clear (frame file)) (flatMap_clear fun cls among => (classes cls among).2)

theorem isProgram_plain (made : IsProgram script allProto (foundNotes fileLines structDict) desc program)
    (all : ∀ desc ∈ allProto, desc.Plain) (plain : desc.Plain) (lines : ∀ line ∈ fileLines, '$' ∉ line) :
    PlainProgram program := by
  obtain ⟨⟨rest, package⟩, includes, classes⟩ := made
  refine ⟨?_, fun pre among => ?_, fun cls among => ?_⟩
  · refine splitOn_plain plain.package ?_
    rw [package]
    exact List.mem_cons_of_mem _ List.mem_cons_self
  · rw [includes] at among
    obtain ⟨inc, inside, rfl⟩ := List.mem_map.mp among
    exact incPre_plain (plain.dependency inc inside)
  · obtain ⟨message, inside, name, members⟩ := forall₂_mem_right classes among
    obtain ⟨named, fields⟩ := plain.message message inside
    refine ⟨name ▸ named, fun member among => ?_⟩
    obtain ⟨field, inside, -, isMember⟩ := forall₂_mem_right members among
    have clear := fields field inside
    refine ⟨isMember.name ▸ clear.name, isMember.ctype ▸ prototype2ctype_plain clear, ?_, fun key some => ?_⟩
    · have size : ∀ max, (foundNotes fileLines structDict).sized message.name field.name max → '$' ∉ max := by
        intro max sized mark
        obtain ⟨line, among, subset⟩ := foundNotes_subset sized
        exact lines line among (subset mark)
      have kind := isMember.kind
      cases made : member.kind with
      | simple | struct =>
        show '$' ∉ "1".toList
        decide
      | string max | simpleVec max | structVec max =>
        rw [made] at kind
        exact size max kind.2.2
    · have isKey := isMember.key
      rw [some] at isKey
      obtain ⟨info, found, rfl⟩ := isKeyOf_iff.mp isKey.2
      have clear := findKeyInfo_plain all found
      exact ⟨prototype2ctype_plain clear, clear.name⟩

end Clear

/-! ### The two scripts -/

def scripts : List Script := [Bin.script, Obj.script]

theorem scripts_sound {script : Script} (known : script ∈ scripts) : script.Sound := by
  unfold scripts at known
  rw [List.mem_cons, List.mem_singleton] at known
  rcases known with rfl | rfl
  · exact Bin.sound
  · exact Obj.sound

section Written

variable {script : Script} {allProto : List FileProto} {fileLines : List Text} {structDict : Dict} {filePre : Text}
  {parseInstruct : List Text} {desc : FileProto} {program : Program}

theorem written_eq (known : script ∈ scripts) (all : ∀ desc ∈ allProto, desc.Plain) (plain : desc.Plain)
    (file : '$' ∉ filePre) (long : 2 ≤ parseInstruct.length)
    (made : IsProgram script allProto (foundNotes fileLines structDict) desc program) :
    written script allProto fileLines structDict filePre parseInstruct desc =
      (header script filePre program, source script filePre program) := by
  unfold written
  rw [genCode_eq (scripts_sound known) all plain file, compile_eq_ok.mpr ⟨long, made⟩]
  rfl

theorem written_nil (known : script ∈ scripts) (all : ∀ desc ∈ allProto, desc.Plain) (plain : desc.Plain)
    (file : '$' ∉ filePre)
    (refused : ¬Accepted script allProto (foundNotes fileLines structDict) parseInstruct desc) :
    written script allProto fileLines structDict filePre parseInstruct desc = ([], []) := by
  unfold written
  rw [genCode_eq (scripts_sound known) all plain file]
  cases made : compile script allProto fileLines structDict parseInstruct desc with
  | error fault => rfl
  | ok program =>
    obtain ⟨long, isProgram⟩ := compile_eq_ok.mp made
    exact absurd (accepted_iff.mpr ⟨long, program, isProgram⟩) refused

end Written

/-- **What is in the two files afterwards**, for both scripts, where no name has the letter of the holes: the program
of the descriptor, or nothing. -/
theorem written_program (script : Script) (known : script ∈ scripts) (allProto : List FileProto)
    (fileLines : List Text) (structDict : Dict) (filePre : Text) (parseInstruct : List Text) (desc : FileProto)
    (all : ∀ desc ∈ allProto, desc.Plain) (plain : desc.Plain) (file : '$' ∉ filePre) :
    (Accepted script allProto (foundNotes fileLines structDict) parseInstruct desc →
      ∃ program, IsProgram script allProto (foundNotes fileLines structDict) desc program ∧
        written script allProto fileLines structDict filePre parseInstruct desc =
          (header script filePre program, source script filePre program)) ∧
    (¬Accepted script allProto (foundNotes fileLines structDict) parseInstruct desc →
      written script allProto fileLines structDict filePre parseInstruct desc = ([], [])) := by
  refine ⟨fun accepted => ?_, written_nil known all plain file⟩
  obtain ⟨long, program, made⟩ := accepted_iff.mp accepted
  exact ⟨program, made, written_eq known all plain file long made⟩

/-- A message with a list of others, which have a key. -/
def deckProto : FileProto where
  package := "Proto.Game".toList
  dependency := []
  messageType :=
    [⟨"Card".toList, [⟨"id".toList, false, .uint32, []⟩, ⟨"title".toList, false, .string, []⟩]⟩,
      ⟨"Deck".toList, [⟨"cards".toList, true, .message, ".Proto.Game.Card".toList⟩]⟩]

def deckFile : List Text :=
  ["message Card \x7b\n".toList, "  optional uint32 id = 1;\n".toList,
    "  optional string title = 2; // |gen|max|16|\n".toList, "\x7d\n".toList, "message Deck \x7b\n".toList,
    "  repeated Card cards = 1; // |gen|max|9|keyopt|\n".toList, "\x7d\n".toList]

def deckDict : Dict := fun name =>
  if name = "Card".toList then some [1, 4] else if name = "Deck".toList then some [5, 7] else none

theorem deck_plain : deckProto.Plain := by
  refine ⟨by decide +kernel, fun _ none => absurd none List.not_mem_nil, ?_⟩
  unfold deckProto
  simp only [List.forall_mem_cons]
  refine ⟨⟨by decide +kernel, ?_⟩, ⟨by decide +kernel, ?_⟩, List.forall_mem_nil _⟩
  · exact ⟨⟨by decide +kernel, List.not_mem_nil⟩, ⟨by decide +kernel, List.not_mem_nil⟩, List.forall_mem_nil _⟩
  · exact ⟨⟨by decide +kernel, by decide +kernel⟩, List.forall_mem_nil _⟩

theorem deck_all : ∀ desc ∈ [deckProto], desc.Plain :=
  fun _ among => List.mem_singleton.mp among ▸ deck_plain

theorem deck_key : IsKeyOf [deckProto] (prototype2ctype ⟨"cards".toList, true, .message, ".Proto.Game.Card".toList⟩)
    ("uint32_t".toList, "id".toList) :=
  isKeyOf_iff.mpr ⟨⟨"id".toList, false, .uint32, []⟩, by decide +kernel, rfl⟩

theorem deck_accepted (script : Script) (parseInstruct : List Text) (long : 2 ≤ parseInstruct.length) :
    Accepted script [deckProto] (foundNotes deckFile deckDict) parseInstruct deckProto := by
  refine ⟨long, ⟨"Game".toList, [], by decide +kernel⟩, ?_⟩
  unfold deckProto
  simp only [List.forall_mem_cons]
  refine ⟨⟨⟨trivial, fun _ => Bool.false_ne_true, ?_, ?_⟩, ⟨trivial, fun _ => Bool.false_ne_true, ?_, ?_⟩,
    List.forall_mem_nil _⟩, ⟨⟨?_, fun wrong => (by cases wrong), ?_, ?_⟩, List.forall_mem_nil _⟩,
    List.forall_mem_nil _⟩
  · exact fun wrong => wrong.elim (fun many => absurd many Bool.false_ne_true) fun wrong => by cases wrong
  · exact fun wrong => absurd wrong.2.1 Bool.false_ne_true
  · exact fun _ => ⟨"16".toList, false, by decide +kernel⟩
  · exact fun wrong => absurd wrong.2.1 Bool.false_ne_true
  · exact ⟨"Card".toList, by decide +kernel, by decide, by decide⟩
  · exact fun _ => ⟨"9".toList, true, by decide +kernel⟩
  · exact fun _ => ⟨_, deck_key⟩

theorem written_program_deck : ∃ program, IsProgram Obj.script [deckProto] (foundNotes deckFile deckDict) deckProto program ∧
    written Obj.script [deckProto] deckFile deckDict "deck".toList [[], []] deckProto =
      (header Obj.script "deck".toList program, source Obj.script "deck".toList program) :=
  (written_program Obj.script (List.mem_cons_of_mem _ List.mem_cons_self) [deckProto] deckFile deckDict "deck".toList
    [[], []] deckProto deck_all deck_plain (by decide +kernel)).1 (deck_accepted _ _ le_rfl)

/-- **No hole is left** in the files of either script, where neither a name nor a line has the letter of the holes. -/
theorem written_clear (script : Script) (known : script ∈ scripts) (allProto : List FileProto)
    (fileLines : List Text) (structDict : Dict) (filePre : Text) (parseInstruct : List Text) (desc : FileProto)
    (all : ∀ desc ∈ allProto, desc.Plain) (plain : desc.Plain) (file : '$' ∉ filePre)
    (lines : ∀ line ∈ fileLines, '$' ∉ line) :
    '$' ∉ (written script allProto fileLines structDict filePre parseInstruct desc).1 ∧
      '$' ∉ (written script allProto fileLines structDict filePre parseInstruct desc).2 := by
  by_cases accepted : Accepted script allProto (foundNotes fileLines structDict) parseInstruct desc
  · obtain ⟨long, program, made⟩ := accepted_iff.mp accepted
    rw [written_eq known all plain file long made]
    exact files_clear (scripts_sound known) (isProgram_plain made all plain lines) file
  · rw [written_nil known all plain file accepted]
    exact ⟨List.not_mem_nil, List.not_mem_nil⟩

theorem written_clear_deck :
    '$' ∉ (written Obj.script [deckProto] deckFile deckDict "deck".toList [[], []] deckProto).1 ∧
      '$' ∉ (written Obj.script [deckProto] deckFile deckDict "deck".toList [[], []] deckProto).2 :=
  written_clear Obj.script (List.mem_cons_of_mem _ List.mem_cons_self) [deckProto] deckFile deckDict "deck".toList
    [[], []] deckProto deck_all deck_plain (by decide +kernel) (by decide +kernel)

end Gen

end Yarf.Tools
