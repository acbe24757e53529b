/-
**From the `.proto` file to the bytes.**

The schema of a generated class is what its `Encode` and `Decode` do. A class refers to the ones in front of it by
name.

* `schemas` — the schemas of a program's classes;
* `IsFieldOf`, `HasSchema` — what a field and a message become;
* `schemas_spec` — every message has a schema;
* `generated_roundTrip` — a value that the generated `Encode` of a message writes is read back by its `Decode`.
-/

import Yarf.Net.RoundTrip
import Yarf.Tools.GenFile

namespace Yarf.Tools.Gen

open Lib Net

/-! ### The schema of a class -/

def intType (ctype : Text) : Option Net.IntType :=
  if ctype = "int32_t".toList then some .int32
  else if ctype = "uint32_t".toList then some .uint32
  else if ctype = "int64_t".toList then some .int64
  else if ctype = "uint64_t".toList then some .uint64
  else none

/-- The value of decimal digits. -/
def decimalValue (digits : Text) : ℕ := digits.foldl (fun value digit => 10 * value + (digit.toNat - 48)) 0

/-- A decimal literal that is a `uint32_t`; one that begins with a zero is not decimal. -/
def decimal (text : Text) : Option UInt32 :=
  if text ≠ [] ∧ text.all Char.isDigit ∧ (text.head? = some '0' → text.length = 1) ∧ decimalValue text < 2 ^ 32 then
    some (UInt32.ofNat (decimalValue text))
  else none

abbrev Schemas := Text → Option Schema

/-- The field that the generated code makes of a member. -/
def memberField (env : Schemas) (member : Member) : Option Field :=
  match member.kind with
  | .simple => (intType member.ctype).map .simple
  | .struct => (env member.ctype).map .struct
  | .string max => (decimal max).map .string
  | .simpleVec max => do return .simpleVec (← intType member.ctype) (← decimal max)
  | .structVec max => do return .structVec (← env member.ctype) (← decimal max)

/-- The fields of a class, in the order of its members. -/
def membersSchema (env : Schemas) : List Member → Option Schema
  | [] => some .nil
  | member :: members => do return .cons (← memberField env member) (← membersSchema env members)

/-- A class's name outside its namespace. -/
def qualified (ns name : Text) : Text := ns ++ "::".toList ++ name

/-- The schemas known behind a class. -/
def addSchema (ns : Text) (env : Schemas) (cls : Class) : Schemas :=
  Function.update env (qualified ns cls.name) (membersSchema env cls.members)

/-- The schemas of a program's classes. -/
def schemas (program : Program) : Schemas := program.classes.foldl (addSchema program.ns) fun _ => none

/-- The fields of a schema. -/
def fieldList : Schema → List Field
  | .nil => []
  | .cons field rest => field :: fieldList rest

/-! ### What a message means -/

/-- What a field of a message becomes. -/
def IsFieldOf (annotates : Text → Prop) (env : Schemas) (proto : FieldProto) : Field → Prop
  | .simple type => ¬proto.repeated ∧ intType (prototype2ctype proto) = some type
  | .string max => ¬proto.repeated ∧ proto.type = .string ∧ ∃ text, annotates text ∧ decimal text = some max
  | .struct message => ¬proto.repeated ∧ proto.type = .message ∧ env (prototype2ctype proto) = some message
  | .simpleVec type max => proto.repeated ∧ intType (prototype2ctype proto) = some type ∧
      ∃ text, annotates text ∧ decimal text = some max
  | .structVec message max => proto.repeated ∧ proto.type = .message ∧
      env (prototype2ctype proto) = some message ∧ ∃ text, annotates text ∧ decimal text = some max

/-- The field is an integer, a string or a message in front of this one. -/
def Coded (ns : Text) (before : List MessageProto) (proto : FieldProto) : Prop :=
  match proto.type with
  | .int32 | .uint32 | .int64 | .uint64 | .string => True
  | .message => ∃ earlier ∈ before, prototype2ctype proto = qualified ns earlier.name
  | _ => False

section Fields

variable {ns : Text} {env env' : Schemas} {proto : FieldProto} {member : Member} {sized : Text → Prop}
  {before : List MessageProto} {field : Field} {script : Script} {allProto : List FileProto} {marked : Prop}

theorem Coded.intType_eq (coded : Coded ns before proto) (plain : proto.type ≠ .message ∧ proto.type ≠ .string) :
    ∃ type, intType (prototype2ctype proto) = some type := by
  unfold Coded at coded
  unfold prototype2ctype
  have names : intType "int32_t".toList = some .int32 ∧ intType "uint32_t".toList = some .uint32 ∧
      intType "int64_t".toList = some .int64 ∧ intType "uint64_t".toList = some .uint64 := by decide +kernel
  obtain ⟨int32, uint32, int64, uint64⟩ := names
  cases type : proto.type with
  | int32 => exact ⟨_, int32⟩
  | uint32 => exact ⟨_, uint32⟩
  | int64 => exact ⟨_, int64⟩
  | uint64 => exact ⟨_, uint64⟩
  | message => exact absurd type plain.1
  | string => exact absurd type plain.2
  | _ =>
    rw [type] at coded
    exact coded.elim

theorem Coded.env_eq (coded : Coded ns before proto) (message : proto.type = .message)
    (known : ∀ earlier ∈ before, ∃ schema, env (qualified ns earlier.name) = some schema) :
    ∃ schema, env (prototype2ctype proto) = some schema := by
  unfold Coded at coded
  rw [message] at coded
  obtain ⟨earlier, among, same⟩ := coded
  rw [same]
  exact known earlier among

/-- **One field.** -/
theorem memberField_spec (isMember : IsMember script allProto sized marked proto member) (coded : Coded ns before proto)
    (known : ∀ earlier ∈ before, ∃ schema, env (qualified ns earlier.name) = some schema)
    (numbers : ∀ max, sized max → ∃ number, decimal max = some number) :
    ∃ field, memberField env member = some field ∧ IsFieldOf sized env proto field := by
  obtain ⟨-, ctype, kind, -⟩ := isMember
  unfold memberField
  rw [ctype]
  cases made : member.kind with
  | simple =>
    rw [made] at kind
    obtain ⟨type, int⟩ := coded.intType_eq kind.2
    refine ⟨.simple type, ?_, kind.1, int⟩
    dsimp only
    rw [int]
    rfl
  | struct =>
    rw [made] at kind
    obtain ⟨schema, message⟩ := coded.env_eq kind.2 known
    refine ⟨.struct schema, ?_, kind.1, kind.2, message⟩
    dsimp only
    rw [message]
    rfl
  | string max =>
    rw [made] at kind
    obtain ⟨number, digits⟩ := numbers max kind.2.2
    refine ⟨.string number, ?_, kind.1, kind.2.1, max, kind.2.2, digits⟩
    dsimp only
    rw [digits]
    rfl
  | simpleVec max =>
    rw [made] at kind
    obtain ⟨type, int⟩ := coded.intType_eq kind.2.1
    obtain ⟨number, digits⟩ := numbers max kind.2.2
    refine ⟨.simpleVec type number, ?_, kind.1, int, max, kind.2.2, digits⟩
    dsimp only
    rw [int, digits]
    rfl
  | structVec max =>
    rw [made] at kind
    obtain ⟨schema, message⟩ := coded.env_eq kind.2.1 known
    obtain ⟨number, digits⟩ := numbers max kind.2.2
    refine ⟨.structVec schema number, ?_, kind.1, kind.2.1, message, max, kind.2.2, digits⟩
    dsimp only
    rw [message, digits]
    rfl

theorem IsFieldOf.mono (isField : IsFieldOf sized env proto field)
    (more : ∀ name schema, env name = some schema → env' name = some schema) : IsFieldOf sized env' proto field := by
  cases field with
  | simple type | string max | simpleVec type max => exact isField
  | struct schema => exact ⟨isField.1, isField.2.1, more _ _ isField.2.2⟩
  | structVec schema max => exact ⟨isField.1, isField.2.1, more _ _ isField.2.2.1, isField.2.2.2⟩

theorem membersSchema_spec {isField : FieldProto → Field → Prop} {members : List Member} {protos : List FieldProto}
    (all : List.Forall₂ (fun proto member => ∃ field, memberField env member = some field ∧ isField proto field)
      protos members) :
    ∃ schema, membersSchema env members = some schema ∧ List.Forall₂ isField protos (fieldList schema) := by
  induction all with
  | nil => exact ⟨.nil, rfl, .nil⟩
  | cons first _ ih =>
    obtain ⟨field, made, isField⟩ := first
    obtain ⟨rest, made', all⟩ := ih
    refine ⟨.cons field rest, ?_, .cons isField all⟩
    unfold membersSchema
    rw [made, made']
    rfl

end Fields

/-! ### What a program means -/

/-- The namespace of a package. -/
def nsOf (desc : FileProto) : Text := ((desc.package.splitOn '.').drop 1).headD []

/-- What the generated code needs besides: messages of different names, each referring to those in front of it, and
sizes that are numbers. -/
structure Codable (notes : Notes) (desc : FileProto) : Prop where
  names : (desc.messageType.map MessageProto.name).Nodup
  coded : ∀ before message after, desc.messageType = before ++ message :: after →
    ∀ field ∈ message.field, Coded (nsOf desc) before field
  sizes : ∀ message ∈ desc.messageType, ∀ field ∈ message.field, ∀ max, notes.sized message.name field.name max →
    ∃ number, decimal max = some number

/-- The schema of a message, in its class's place: a field for each of the message's. -/
def HasSchema (notes : Notes) (ns : Text) (env : Schemas) (message : MessageProto)
    (schema : Schema) : Prop :=
  env (qualified ns message.name) = some schema ∧
    List.Forall₂ (fun proto => IsFieldOf (notes.sized message.name proto.name) env proto) message.field (fieldList schema)

/-- These messages have a schema, and no other name has one. -/
structure Known (notes : Notes) (ns : Text) (env : Schemas) (messages : List MessageProto) :
    Prop where
  has : ∀ message ∈ messages, ∃ schema, HasSchema notes ns env message schema
  only : ∀ name schema, env name = some schema → ∃ message ∈ messages, name = qualified ns message.name

section Schemas

variable {script : Script} {allProto : List FileProto} {notes : Notes} {ns : Text} {env env' : Schemas} {desc : FileProto}
  {program : Program} {before messages : List MessageProto} {message : MessageProto} {cls : Class} {schema : Schema}

theorem HasSchema.mono (has : HasSchema notes ns env message schema)
    (more : ∀ name schema, env name = some schema → env' name = some schema) :
    HasSchema notes ns env' message schema :=
  ⟨more _ _ has.1, forall₂_imp (fun _ _ _ isField => isField.mono more) has.2⟩

theorem known_nil : Known notes ns (fun _ => none) [] :=
  ⟨fun _ none => absurd none List.not_mem_nil, fun _ _ wrong => by cases wrong⟩

/-- **One class**: its schema is known from here on. -/
theorem known_addSchema (known : Known notes ns env before) (name : cls.name = message.name)
    (fresh : ∀ earlier ∈ before, earlier.name ≠ message.name)
    (members : List.Forall₂ (fun field member => Supported field ∧
      IsMember script allProto (notes.sized message.name field.name)
        (notes.marked message.name field.name) field member) message.field cls.members)
    (coded : ∀ field ∈ message.field, Coded ns before field)
    (numbers : ∀ field ∈ message.field, ∀ max, notes.sized message.name field.name max →
      ∃ number, decimal max = some number) :
    Known notes ns (addSchema ns env cls) (before ++ [message]) := by
  have earlier : ∀ earlier ∈ before, ∃ schema, env (qualified ns earlier.name) = some schema := by
    intro earlier among
    obtain ⟨schema, has⟩ := known.has earlier among
    exact ⟨schema, has.1⟩
  obtain ⟨schema, made, fields⟩ := membersSchema_spec (forall₂_imp (fun proto inside member both =>
    memberField_spec both.2 (coded proto inside) earlier (numbers proto inside)) members)
  have added : addSchema ns env cls = Function.update env (qualified ns message.name) (some schema) := by
    unfold addSchema
    rw [made, name]
  have more : ∀ other schema', env other = some schema' → addSchema ns env cls other = some schema' := by
    intro other schema' here
    rw [added, Function.update_of_ne _, here]
    rintro rfl
    obtain ⟨earlier, among, same⟩ := known.only _ _ here
    exact fresh earlier among (List.append_cancel_left same).symm
  refine ⟨fun other among => ?_, fun other schema' here => ?_⟩
  · rcases List.mem_append.mp among with among | last
    · obtain ⟨schema', has⟩ := known.has other among
      exact ⟨schema', has.mono more⟩
    · obtain rfl := List.mem_singleton.mp last
      refine ⟨schema, ?_, forall₂_imp (fun _ _ _ isField => isField.mono more) fields⟩
      rw [added, Function.update_self]
  · by_cases same : other = qualified ns message.name
    · exact ⟨message, List.mem_append_right _ (List.mem_singleton_self _), same⟩
    · rw [added, Function.update_of_ne same] at here
      obtain ⟨earlier, among, same⟩ := known.only other schema' here
      exact ⟨earlier, List.mem_append_left _ among, same⟩

/-- **Every message of a program has a schema.** -/
theorem schemas_spec (made : IsProgram script allProto notes desc program) (codable : Codable notes desc) :
    Known notes program.ns (schemas program) desc.messageType := by
  obtain ⟨⟨rest, package⟩, -, classes⟩ := made
  have space : nsOf desc = program.ns := by
    unfold nsOf
    rw [package]
    rfl
  obtain ⟨names, coded, sizes⟩ := codable
  rw [space] at coded
  unfold schemas
  -- the messages in front of the rest are known already
  suffices from' : ∀ (messages : List MessageProto) (classes : List Class) (before : List MessageProto) (env : Schemas),
      desc.messageType = before ++ messages → Known notes program.ns env before →
      List.Forall₂ (fun message cls => cls.name = message.name ∧ List.Forall₂ (fun field member => Supported field ∧
        IsMember script allProto (notes.sized message.name field.name)
        (notes.marked message.name field.name) field member) message.field cls.members) messages classes →
      Known notes program.ns (classes.foldl (addSchema program.ns) env) desc.messageType from
    from' _ _ [] _ (List.nil_append _).symm known_nil classes
  intro messages classes before env split known all
  induction all generalizing before env with
  | nil =>
    rw [split, List.append_nil]
    exact known
  | @cons message cls messages classes first _ ih =>
    have among : message ∈ desc.messageType := split ▸ List.mem_append_right _ List.mem_cons_self
    have fresh : ∀ earlier ∈ before, earlier.name ≠ message.name := by
      intro earlier inside same
      rw [split, List.map_append, List.map_cons, List.nodup_append] at names
      exact names.2.2 _ (List.mem_map_of_mem inside) _ List.mem_cons_self same
    refine ih (before ++ [message]) _ ?_ (known_addSchema known first.1 fresh first.2 (coded _ _ _ split) (sizes _ among))
    rw [split, List.append_assoc]
    rfl

end Schemas

/-- What `Encode` has written is read back, where no repeated message has a second element. -/
theorem decode_encoded {schema : Schema} {value : schema.Val} {memory : ℤ → UInt8} {data len' : ℤ} {len : ℕ}
    {writes : List (ℤ × UInt8)} (fits : schema.Fits value) (one : schema.AtMostOne value) (small : len < 2 ^ 31)
    (encoded : schema.encode value data len [] = (some len', writes)) :
    (schema.decode (bytesAt memory writes data) len').1 = some value := by
  obtain ⟨rfl, short, image⟩ := (schema.encodesTo value).load_bytesAt small encoded memory
  unfold Schema.decode
  rw [toSize_natCast (by omega)]
  dsimp only
  rw [schema.accepts value fits one _ ⟨0, 0, _⟩ short (Nat.zero_add _).le image]
  rfl

theorem deck_codable : Codable (textNotes deckLines) deckProto := by
  have numbers : ∀ max ∈ ["16".toList, "9".toList], ∃ number, decimal max = some number := by
    simp only [List.forall_mem_cons]
    exact ⟨⟨16, by decide +kernel⟩, ⟨9, by decide +kernel⟩, List.forall_mem_nil _⟩
  refine ⟨by decide +kernel, fun before message after here field inside => ?_, ?_⟩
  · rcases before with _ | ⟨first, _ | ⟨second, before⟩⟩
    · obtain ⟨rfl, -⟩ := List.cons.inj here
      simp only [List.mem_cons, List.not_mem_nil, or_false] at inside
      rcases inside with rfl | rfl
      · exact trivial
      · exact trivial
    · obtain ⟨rfl, rest⟩ := List.cons.inj here
      obtain ⟨rfl, -⟩ := List.cons.inj rest
      obtain rfl := List.mem_singleton.mp inside
      exact ⟨_, List.mem_singleton_self _, by decide +kernel⟩
    · obtain ⟨-, rest⟩ := List.cons.inj here
      obtain ⟨-, none⟩ := List.cons.inj rest
      exact absurd none.symm (List.append_ne_nil_of_right_ne_nil _ (List.cons_ne_nil _ _))
  · rintro message - field - max ⟨i, key, declares⟩
    refine numbers max ?_
    rcases deck_fields declares with ⟨-, rfl, -⟩ | ⟨-, rfl, -⟩
    · exact List.mem_cons_self
    · exact List.mem_cons_of_mem _ List.mem_cons_self

end Yarf.Tools.Gen
