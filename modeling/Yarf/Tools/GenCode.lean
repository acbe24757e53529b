/-
**The generators** (`gen_code` in `proto2bin.py` and `proto2obj4pb.py`).

`gen_code` goes through the message types and their fields once and adds to its texts. Its result is that of two
steps which it does not have: the descriptor is turned into a program of classes and members, or refused, and the
program is written down.

* `genCode` — the generator;
* `compile` — the program of a descriptor;
* `genCode_eq` — the generator writes the program down, where no name has the letter of the holes.
-/

import Yarf.Lib.Fallible
import Yarf.Tools.FieldOpt
import Yarf.Tools.Template

namespace Yarf.Tools

open Lib

/-! ### Descriptors -/

/-- `FieldDescriptorProto.Type` -/
inductive ProtoType
  | double | float | int64 | uint64 | int32 | fixed64 | fixed32 | bool | string | group | message | bytes | uint32
  | enum | sfixed32 | sfixed64 | sint32 | sint64
  deriving DecidableEq

structure FieldProto where
  name : Text
  /-- `label == LABEL_REPEATED` -/
  repeated : Bool
  type : ProtoType
  typeName : Text
  deriving DecidableEq

structure MessageProto where
  name : Text
  field : List FieldProto
  deriving DecidableEq

structure FileProto where
  package : Text
  dependency : List Text
  messageType : List MessageProto
  deriving DecidableEq

/-! ### Names -/

/-- `g_proto_ns` -/
def protoNs : Text := "Proto".toList

def upper (text : Text) : Text := text.map Char.toUpper

/-- The loop of `first2upper`. -/
def first2upperFrom : Bool → Text → Text
  | _, [] => []
  | head, ch :: rest =>
    if ch = '_' then first2upperFrom true rest
    else if head then ch.toUpper :: first2upperFrom false rest
    else ch :: first2upperFrom false rest

def first2upper (text : Text) : Text := first2upperFrom true text

/-- One part of a type's name. -/
def joinName (fieldType name : Text) : Text :=
  if name ≠ [] ∧ name ≠ protoNs then
    if fieldType ≠ [] then fieldType ++ "::".toList ++ name else name
  else fieldType

def prototype2ctype (field : FieldProto) : Text :=
  match field.type with
  | .message => (field.typeName.splitOn '.').foldl joinName []
  | .double => "double".toList
  | .uint64 => "uint64_t".toList
  | .int64 => "int64_t".toList
  | .int32 => "int32_t".toList
  | .bool => "bool".toList
  | .string => "char".toList
  | .uint32 => "uint32_t".toList
  | _ => []

/-- Where `gen_code` stops: with a message of its own, or with an exception. -/
inductive CodeFault
  /-- `parse instruct err` -/
  | parseInstruct
  /-- `proto should be in namespace` -/
  | notInNamespace
  /-- `get field type error` -/
  | fieldType
  /-- `unsurpport string array` -/
  | stringArray
  /-- `find_field_opt` has returned nothing that could be unpacked. -/
  | noOpt
  /-- `find_key_info` has found no message, or one without fields. -/
  | noKey
  | opt (fault : ProtoFault)
  deriving DecidableEq

/-- `field_max, gen_keyopt = find_field_opt(…)` -/
def unpackOpt (found : Except ProtoFault (Option (Text × Bool))) : Except CodeFault (Text × Bool) :=
  match found with
  | .error fault => .error (.opt fault)
  | .ok none => .error .noOpt
  | .ok (some opt) => .ok opt

/-- `full_name.split('::')[-1]`, behind what has been read of the last piece -/
def lastName (piece : Text) : Text → Text
  | [] => piece
  | ':' :: ':' :: rest => lastName [] rest
  | c :: rest => lastName (piece ++ [c]) rest

/-- `find_key_info`: the first field of the message, which its caller uses at once -/
def findKeyInfo (allProto : List FileProto) (fullName : Text) : Except CodeFault FieldProto :=
  match (allProto.flatMap FileProto.messageType).find? (·.name = lastName [] fullName) with
  | some message => message.field.head?.elim (.error .noKey) .ok
  | none => .error .noKey

/-! ### Programs -/

/-- How a generated class holds a field, with its `MAX_…_SIZE`. -/
inductive MemberKind
  | simple
  | struct
  | string (max : Text)
  | simpleVec (max : Text)
  | structVec (max : Text)

/-- `field_max` -/
def MemberKind.max : MemberKind → Text
  | .simple | .struct => "1".toList
  | .string max | .simpleVec max | .structVec max => max

/-- A member of a class; the key is that of the elements of a list. -/
structure Member where
  name : Text
  ctype : Text
  kind : MemberKind
  key : Option (Text × Text)

structure Class where
  name : Text
  members : List Member

structure Program where
  ns : Text
  includes : List Text
  classes : List Class

/-- `inc.split('.')[0]` -/
def incPre (inc : Text) : Text := (inc.splitOn '.').headD []

section Compile

variable (script : Script) (allProto : List FileProto) (fileLines : List Text) (structDict : Dict)

/-- The type and the name of the key, where the script looks for one. -/
def keyOf (ctype : Text) (keyopt : Bool) : Except CodeFault (Option (Text × Text)) :=
  if script.keyed && keyopt then (findKeyInfo allProto ctype).map fun field => some (prototype2ctype field, field.name)
  else .ok none

/-- The member of a field that has a C++ type: repeated fields and strings have a size. -/
def typedMember (className : Text) (field : FieldProto) (ctype : Text) : Except CodeFault Member :=
  if field.repeated then do
    let (max, keyopt) ← unpackOpt (findFieldOpt className field.name fileLines structDict)
    match field.type with
    | .string => .error .stringArray
    | .message => (keyOf script allProto ctype keyopt).map fun key => ⟨field.name, ctype, .structVec max, key⟩
    | _ => (keyOf script allProto ctype keyopt).map fun key => ⟨field.name, ctype, .simpleVec max, key⟩
  else match field.type with
    | .message => .ok ⟨field.name, ctype, .struct, none⟩
    | .string => (unpackOpt (findFieldOpt className field.name fileLines structDict)).map fun opt =>
      ⟨field.name, ctype, .string opt.1, none⟩
    | _ => .ok ⟨field.name, ctype, .simple, none⟩

def memberOf (className : Text) (field : FieldProto) : Except CodeFault Member :=
  if prototype2ctype field = [] then .error .fieldType
  else typedMember script allProto fileLines structDict className field (prototype2ctype field)

def classOf (message : MessageProto) : Except CodeFault Class :=
  (message.field.mapM (memberOf script allProto fileLines structDict message.name)).map fun members =>
    ⟨message.name, members⟩

/-- The program of a descriptor. -/
def compile (parseInstruct : List Text) (desc : FileProto) : Except CodeFault Program :=
  if parseInstruct.length < 2 then .error .parseInstruct
  else match desc.package.splitOn '.' with
    | root :: ns :: _ =>
      if root ≠ protoNs then .error .notInNamespace
      else (desc.messageType.mapM (classOf script allProto fileLines structDict)).map fun classes =>
        ⟨ns, desc.dependency.map incPre, classes⟩
    | _ => .error .notInNamespace

end Compile

/-! ### Names without the letter of the holes -/

/-- The letter does not occur in the names of a descriptor. -/
structure FieldProto.Plain (field : FieldProto) : Prop where
  name : '$' ∉ field.name
  typeName : '$' ∉ field.typeName

structure FileProto.Plain (desc : FileProto) : Prop where
  package : '$' ∉ desc.package
  dependency : ∀ inc ∈ desc.dependency, '$' ∉ inc
  message : ∀ message ∈ desc.messageType, '$' ∉ message.name ∧ ∀ field ∈ message.field, field.Plain

theorem toUpper_ne_mark {c : Char} (plain : c ≠ '$') : c.toUpper ≠ '$' := by
  intro mark
  unfold Char.toUpper at mark
  split at mark
  · next lower =>
    have low := UInt32.le_iff_toNat_le.mp lower.1
    have high := UInt32.le_iff_toNat_le.mp lower.2
    have val := congrArg (fun d : Char => d.val.toNat) mark
    dsimp only at val
    rw [UInt32.toNat_add] at val
    have shift : ('A'.val - 'a'.val).toNat = 2 ^ 32 - 32 := by decide
    have letter : 'a'.val.toNat = 97 := by decide
    have dollar : '$'.val.toNat = 36 := by decide
    have last : 'z'.val.toNat = 122 := by decide
    rw [shift, dollar] at val
    rw [letter] at low
    rw [last] at high
    omega
  · exact plain mark

theorem upper_plain {text : Text} (plain : '$' ∉ text) : '$' ∉ upper text := by
  intro member
  obtain ⟨c, among, same⟩ := List.mem_map.mp member
  exact toUpper_ne_mark (fun mark => plain (mark ▸ among)) same

theorem first2upper_plain {text : Text} (plain : '$' ∉ text) : '$' ∉ first2upper text := by
  unfold first2upper
  generalize true = head
  induction text generalizing head with
  | nil => exact List.not_mem_nil
  | cons ch rest ih =>
    obtain ⟨apart, plain⟩ := not_or.mp (List.mem_cons.not.mp plain)
    unfold first2upperFrom
    split_ifs
    · exact ih plain true
    · exact List.not_mem_cons_of_ne_of_not_mem (toUpper_ne_mark (Ne.symm apart)).symm (ih plain false)
    · exact List.not_mem_cons_of_ne_of_not_mem apart (ih plain false)

theorem splitOn_plain {text part : Text} (plain : '$' ∉ text) (member : part ∈ text.splitOn '.') : '$' ∉ part :=
  fun mark => plain (subset_of_mem_splitOn member mark)

theorem incPre_plain {inc : Text} (plain : '$' ∉ inc) : '$' ∉ incPre inc := by
  obtain ⟨more, pieces⟩ := splitOn_head '.' inc
  refine splitOn_plain plain ?_
  rw [incPre, pieces]
  exact List.mem_cons_self

theorem joinName_plain {fieldType name : Text} (first : '$' ∉ fieldType) (second : '$' ∉ name) :
    '$' ∉ joinName fieldType name := by
  unfold joinName
  split_ifs
  · have colons : '$' ∉ "::".toList := by decide
    rw [List.mem_append, List.mem_append]
    rintro ((here | here) | here)
    · exact first here
    · exact colons here
    · exact second here
  · exact second
  · exact first

theorem prototype2ctype_plain {field : FieldProto} (plain : field.Plain) : '$' ∉ prototype2ctype field := by
  have parts : ∀ (names : List Text) (fieldType : Text), '$' ∉ fieldType → (∀ name ∈ names, '$' ∉ name) →
      '$' ∉ names.foldl joinName fieldType := by
    intro names
    induction names with
    | nil => exact fun _ clear _ => clear
    | cons name names ih =>
      exact fun fieldType clear all => ih _ (joinName_plain clear (all name List.mem_cons_self))
        fun other member => all other (List.mem_cons_of_mem name member)
  unfold prototype2ctype
  split
  · exact parts _ [] List.not_mem_nil fun name member => splitOn_plain plain.typeName member
  all_goals decide

namespace Gen

/-! ### The generator -/

/-- The values of the holes in the pieces of a field. -/
def fieldValues (ns className fieldType fieldName fieldMax fieldKeyType fieldKeyName : Text) : String → Text
  | "ns" => ns
  | "class_name" => className
  | "field_type" => fieldType
  | "field" => fieldName
  | "field_upper" => upper fieldName
  | "field_first_up" => first2upper fieldName
  | "max" => fieldMax
  | "field_key_type" => fieldKeyType
  | "field_key_name" => fieldKeyName
  | _ => []

/-- The values of the holes in the pieces around the fields. -/
def frameValues (ns className macroName filePre : Text) : String → Text
  | "ns" => ns
  | "class_name" => className
  | "macro" => macroName
  | "file_pre" => filePre
  | _ => []

/-- `h_declare_content`, `cc_opt_content`, `cc_encode_content` and `cc_decode_content`. -/
structure Content where
  declare : Text
  opt : Text
  encode : Text
  decode : Text

/-- Texts behind the others. -/
def Content.append (content more : Content) : Content where
  declare := content.declare ++ more.declare
  opt := content.opt ++ more.opt
  encode := content.encode ++ more.encode
  decode := content.decode ++ more.decode

/-- `namespace.upper() + "_" + file_pre.upper() + "_RAWDATA_H_"` -/
def macroName (ns filePre : Text) : Text :=
  upper ns ++ "_".toList ++ upper filePre ++ "_RAWDATA_H_".toList

section Generator

variable (script : Script) (allProto : List FileProto) (fileLines : List Text) (structDict : Dict)

/-- Encoding and decoding of a repeated field. -/
def genVec (values : String → Text) (content : Content) (field : FieldProto) : Except CodeFault Content :=
  match field.type with
  | .message => .ok { content with
      encode := content.encode ++ script.ccEncodeStructVecField.put values
      decode := content.decode ++ script.ccDecodeStructVecField.put values }
  | .string => .error .stringArray
  | _ => .ok { content with
      encode := content.encode ++ script.ccEncodeSimpleVecField.put values
      decode := content.decode ++ script.ccDecodeSimpleVecField.put values }

/-- The loop's body for one field of a message. -/
def genField (ns className : Text) (content : Content) (field : FieldProto) : Except CodeFault Content :=
  let fieldType := prototype2ctype field
  if fieldType = [] then .error .fieldType
  else
    let fieldName := field.name
    if field.repeated then do
      let (fieldMax, genKeyopt) ← unpackOpt (findFieldOpt className fieldName fileLines structDict)
      let values := fieldValues ns className fieldType fieldName fieldMax [] []
      let content ← genVec script values content field
      let content := { content with
        declare := content.declare ++ script.hVecField.put values
        opt := content.opt ++ script.ccOptFunc.put values }
      if script.keyed && genKeyopt then do
        let keyFieldInfo ← findKeyInfo allProto fieldType
        let values := fieldValues ns className fieldType fieldName fieldMax (prototype2ctype keyFieldInfo)
          keyFieldInfo.name
        pure { content with
          declare := content.declare ++ script.hVecFieldMore.put values
          opt := content.opt ++ script.ccAdditionalOptFunc.put values }
      else pure content
    else match field.type with
      | .message =>
        let values := fieldValues ns className fieldType fieldName "1".toList [] []
        pure { content with
          declare := content.declare ++ script.hSingleField.put values
          encode := content.encode ++ script.ccEncodeStructField.put values
          decode := content.decode ++ script.ccDecodeStructField.put values }
      | .string => do
        let (fieldMax, _) ← unpackOpt (findFieldOpt className fieldName fileLines structDict)
        let values := fieldValues ns className fieldType fieldName fieldMax [] []
        pure { content with
          declare := content.declare ++ script.hStringField.put values
          encode := content.encode ++ script.ccEncodeStringField.put values
          decode := content.decode ++ script.ccDecodeStringField.put values }
      | _ =>
        let values := fieldValues ns className fieldType fieldName "1".toList [] []
        pure { content with
          declare := content.declare ++ script.hSingleField.put values
          encode := content.encode ++ script.ccEncodeSimpleField.put values
          decode := content.decode ++ script.ccDecodeSimpleField.put values }

/-- The loop's body for one message: `h_content` and `cc_content`. -/
def genMessage (ns : Text) (texts : Text × Text) (message : MessageProto) : Except CodeFault (Text × Text) := do
  let className := message.name
  let values := frameValues ns className [] []
  let begun : Content :=
    { declare := script.hClassBegin.put values
      opt := []
      encode := script.ccEncodeBegin.put values
      decode := script.ccDecodeBegin.put values }
  let content ← message.field.foldlM (genField script allProto fileLines structDict ns className) begun
  let declare := content.declare ++ script.hClassEnd.put values
  let encode := content.encode ++ script.ccEncodeEnd.put values
  let decode := content.decode ++ script.codeDecodeEnd.put values
  pure (texts.1 ++ declare, texts.2 ++ content.opt ++ encode ++ decode)

/-- `gen_code`: what is written to the two files -/
def genCode (filePre : Text) (parseInstruct : List Text) (desc : FileProto) : Except CodeFault (Text × Text) :=
  if parseInstruct.length < 2 then .error .parseInstruct
  else match desc.package.splitOn '.' with
    | root :: ns :: _ =>
      if root ≠ protoNs then .error .notInNamespace
      else do
        let name := macroName ns filePre
        let values := frameValues ns [] name filePre
        let ccContent := script.ccBegin.put values
        let hContent := script.hBegin.put values
        let hContent := desc.dependency.foldl
          (fun hContent inc => hContent ++ script.hInclude.put (frameValues ns [] name (incPre inc))) hContent
        let hContent := hContent ++ script.hNsBegin.put values
        let (hContent, ccContent) ←
          desc.messageType.foldlM (genMessage script allProto fileLines structDict ns) (hContent, ccContent)
        pure (hContent ++ script.hEnd.put values, ccContent)
    | _ => .error .notInNamespace

/-- The two files afterwards: they are opened, and emptied, before anything is looked at. -/
def written (filePre : Text) (parseInstruct : List Text) (desc : FileProto) : Text × Text :=
  match genCode script allProto fileLines structDict filePre parseInstruct desc with
  | .ok texts => texts
  | .error _ => ([], [])

end Generator

/-! ### The program written down -/

section Written

variable (script : Script)

/-- The values for a member. -/
def memberValues (ns className : Text) (member : Member) : String → Text :=
  fieldValues ns className member.ctype member.name member.kind.max [] []

/-- The values for the key of a member's elements. -/
def keyValues (ns className : Text) (member : Member) (key : Text × Text) : String → Text :=
  fieldValues ns className member.ctype member.name member.kind.max key.1 key.2

/-- What is added for a member. -/
def kindContent (values : String → Text) : MemberKind → Content
  | .simple => ⟨script.hSingleField.fill values, [], script.ccEncodeSimpleField.fill values,
      script.ccDecodeSimpleField.fill values⟩
  | .struct => ⟨script.hSingleField.fill values, [], script.ccEncodeStructField.fill values,
      script.ccDecodeStructField.fill values⟩
  | .string _ => ⟨script.hStringField.fill values, [], script.ccEncodeStringField.fill values,
      script.ccDecodeStringField.fill values⟩
  | .simpleVec _ => ⟨script.hVecField.fill values, script.ccOptFunc.fill values,
      script.ccEncodeSimpleVecField.fill values, script.ccDecodeSimpleVecField.fill values⟩
  | .structVec _ => ⟨script.hVecField.fill values, script.ccOptFunc.fill values,
      script.ccEncodeStructVecField.fill values, script.ccDecodeStructVecField.fill values⟩

/-- What is added for a key. -/
def keyContent (values : String → Text) : Content :=
  ⟨script.hVecFieldMore.fill values, script.ccAdditionalOptFunc.fill values, [], []⟩

def memberContent (ns className : Text) (member : Member) : Content :=
  let content := kindContent script (memberValues ns className member) member.kind
  match member.key with
  | none => content
  | some key => content.append (keyContent script (keyValues ns className member key))

/-- The struct of a class. -/
def declareClass (ns : Text) (cls : Class) : Text :=
  let values := frameValues ns cls.name [] []
  let contents := cls.members.map (memberContent script ns cls.name)
  script.hClassBegin.fill values ++ contents.flatMap Content.declare ++ script.hClassEnd.fill values

/-- The functions of a class. -/
def defineClass (ns : Text) (cls : Class) : Text :=
  let values := frameValues ns cls.name [] []
  let contents := cls.members.map (memberContent script ns cls.name)
  contents.flatMap Content.opt ++
    (script.ccEncodeBegin.fill values ++ contents.flatMap Content.encode ++ script.ccEncodeEnd.fill values) ++
    (script.ccDecodeBegin.fill values ++ contents.flatMap Content.decode ++ script.codeDecodeEnd.fill values)

/-- The `.h` file of a program. -/
def header (filePre : Text) (program : Program) : Text :=
  let name := macroName program.ns filePre
  let values := frameValues program.ns [] name filePre
  script.hBegin.fill values ++
    program.includes.flatMap (fun pre => script.hInclude.fill (frameValues program.ns [] name pre)) ++
    script.hNsBegin.fill values ++ program.classes.flatMap (declareClass script program.ns) ++ script.hEnd.fill values

/-- The `.cpp` file. -/
def source (filePre : Text) (program : Program) : Text :=
  script.ccBegin.fill (frameValues program.ns [] (macroName program.ns filePre) filePre) ++
    program.classes.flatMap (defineClass script program.ns)

end Written

/-! ### The generator writes the program down -/

section Refine

variable {script : Script} {allProto : List FileProto} {fileLines : List Text} {structDict : Dict}
  {ns className fieldType fieldName fieldMax keyType keyName filePre : Text} {parseInstruct : List Text}
  {desc : FileProto} {message : MessageProto} {field : FieldProto} {content : Content}

theorem fieldValues_clear (space : '$' ∉ ns) (named : '$' ∉ className) (typed : '$' ∉ fieldType)
    (plain : '$' ∉ fieldName) (keyTyped : '$' ∉ keyType) (keyNamed : '$' ∉ keyName) (hole : String)
    (apart : hole ≠ "max") : '$' ∉ fieldValues ns className fieldType fieldName fieldMax keyType keyName hole := by
  unfold fieldValues
  split
  · exact space
  · exact named
  · exact typed
  · exact plain
  · exact upper_plain plain
  · exact first2upper_plain plain
  · exact absurd rfl apart
  · exact keyTyped
  · exact keyNamed
  · exact List.not_mem_nil

theorem frameValues_clear {name : Text} (space : '$' ∉ ns) (named : '$' ∉ className) (plain : '$' ∉ name)
    (file : '$' ∉ filePre) (hole : String) : '$' ∉ frameValues ns className name filePre hole := by
  unfold frameValues
  split
  · exact space
  · exact named
  · exact plain
  · exact file
  · exact List.not_mem_nil

theorem findKeyInfo_plain (all : ∀ desc ∈ allProto, desc.Plain) (found : findKeyInfo allProto fieldType = .ok field) :
    field.Plain := by
  unfold findKeyInfo at found
  split at found
  · next message here =>
    obtain ⟨desc, among, inside⟩ := List.mem_flatMap.mp (List.mem_of_find?_eq_some here)
    cases first : message.field with
    | nil =>
      rw [first] at found
      cases found
    | cons head rest =>
      rw [first] at found
      rw [← Except.ok.inj found]
      exact ((all desc among).message message inside).2 head (first ▸ List.mem_cons_self)
  · cases found

/-- **One field.** -/
theorem genField_eq (sound : script.Sound) (all : ∀ desc ∈ allProto, desc.Plain) (space : '$' ∉ ns)
    (named : '$' ∉ className) (plain : field.Plain) :
    genField script allProto fileLines structDict ns className content field =
      (memberOf script allProto fileLines structDict className field).map fun member =>
        content.append (memberContent script ns className member) := by
  have clear : ∀ fieldMax, ∀ hole, hole ≠ "max" →
      '$' ∉ fieldValues ns className (prototype2ctype field) field.name fieldMax [] [] hole :=
    fun fieldMax => fieldValues_clear space named (prototype2ctype_plain plain) plain.name List.not_mem_nil
      List.not_mem_nil
  unfold genField memberOf
  dsimp only
  by_cases none : prototype2ctype field = []
  · rw [if_pos none, if_pos none]
    rfl
  rw [if_neg none, if_neg none]
  unfold typedMember
  by_cases many : field.repeated
  · rw [if_pos many, if_pos many]
    cases unpackOpt (findFieldOpt className field.name fileLines structDict) with
    | error fault => rfl
    | ok opt =>
      obtain ⟨max, keyopt⟩ := opt
      have values := clear max
      dsimp only [Bind.bind, Except.bind, Pure.pure, Except.pure]
      unfold genVec keyOf
      rw [sound.hVecField.put_eq values, sound.ccOptFunc.put_eq values, sound.ccEncodeStructVecField.put_eq values,
        sound.ccDecodeStructVecField.put_eq values, sound.ccEncodeSimpleVecField.put_eq values,
        sound.ccDecodeSimpleVecField.put_eq values]
      by_cases looked : (script.keyed && keyopt) = true
      · cases found : findKeyInfo allProto (prototype2ctype field) with
        | error fault =>
          simp only [looked, if_true]
          cases field.type <;> rfl
        | ok info =>
          have key := findKeyInfo_plain all found
          have values' := @fieldValues_clear ns className _ _ max _ _ space named (prototype2ctype_plain plain)
            plain.name (prototype2ctype_plain key) key.name
          simp only [looked, if_true, sound.hVecFieldMore.put_eq values', sound.ccAdditionalOptFunc.put_eq values']
          cases field.type <;>
            simp [Except.map, Content.append, memberContent, kindContent, keyContent, memberValues, keyValues,
              MemberKind.max]
      · simp only [looked]
        cases field.type <;> rfl
  · rw [if_neg many, if_neg many]
    have single := clear "1".toList
    rw [sound.hSingleField.put_eq single, sound.ccEncodeStructField.put_eq single,
      sound.ccDecodeStructField.put_eq single, sound.ccEncodeSimpleField.put_eq single,
      sound.ccDecodeSimpleField.put_eq single]
    cases field.type with
    | string =>
      cases unpackOpt (findFieldOpt className field.name fileLines structDict) with
      | error fault => rfl
      | ok opt =>
        have values := clear opt.1
        dsimp only [Bind.bind, Except.bind, Pure.pure, Except.pure]
        rw [sound.hStringField.put_eq values, sound.ccEncodeStringField.put_eq values,
          sound.ccDecodeStringField.put_eq values]
        simp [Except.map, Content.append, memberContent, kindContent, memberValues, MemberKind.max]
    | _ =>
      simp [Except.map, Content.append, memberContent, kindContent, memberValues, MemberKind.max, Pure.pure,
        Except.pure]

/-- Texts behind the others, one after another. -/
theorem foldl_append (contents : List Content) (content : Content) : contents.foldl Content.append content =
    ⟨content.declare ++ contents.flatMap Content.declare, content.opt ++ contents.flatMap Content.opt,
      content.encode ++ contents.flatMap Content.encode, content.decode ++ contents.flatMap Content.decode⟩ := by
  induction contents generalizing content with
  | nil =>
    simp only [List.flatMap_nil, List.append_nil]
    rfl
  | cons more contents ih =>
    rw [List.foldl_cons, ih]
    simp only [List.flatMap_cons, ← List.append_assoc]
    rfl

/-- The two texts with a class behind them. -/
def addClass (script : Script) (ns : Text) (texts : Text × Text) (cls : Class) : Text × Text :=
  (texts.1 ++ declareClass script ns cls, texts.2 ++ defineClass script ns cls)

/-- **One message.** -/
theorem genMessage_eq (sound : script.Sound) (all : ∀ desc ∈ allProto, desc.Plain) (space : '$' ∉ ns)
    (named : '$' ∉ message.name) (plain : ∀ field ∈ message.field, field.Plain) (texts : Text × Text) :
    genMessage script allProto fileLines structDict ns texts message =
      (classOf script allProto fileLines structDict message).map (addClass script ns texts) := by
  have clear : ∀ hole, hole ≠ "max" → '$' ∉ frameValues ns message.name [] [] hole :=
    fun hole _ => frameValues_clear space named List.not_mem_nil List.not_mem_nil hole
  have loop := @foldlM_eq _ _ _ _ (genField script allProto fileLines structDict ns message.name) _ _ message.field
    fun content field member => genField_eq sound all space named (plain field member)
  unfold genMessage
  dsimp only
  rw [sound.hClassBegin.put_eq clear, sound.ccEncodeBegin.put_eq clear, sound.ccDecodeBegin.put_eq clear,
    sound.hClassEnd.put_eq clear, sound.ccEncodeEnd.put_eq clear, sound.codeDecodeEnd.put_eq clear, loop]
  unfold classOf
  cases message.field.mapM (memberOf script allProto fileLines structDict message.name) with
  | error fault => rfl
  | ok members =>
    have added : ∀ start, members.foldl (fun content member =>
        content.append (memberContent script ns message.name member)) start =
          (members.map (memberContent script ns message.name)).foldl Content.append start :=
      fun start => List.foldl_map.symm
    simp only [Except.map, Bind.bind, Except.bind, Pure.pure, Except.pure, added, foldl_append, addClass, declareClass,
      defineClass, List.append_assoc, List.nil_append]

theorem foldl_addClass (classes : List Class) (texts : Text × Text) :
    classes.foldl (addClass script ns) texts =
      (texts.1 ++ classes.flatMap (declareClass script ns), texts.2 ++ classes.flatMap (defineClass script ns)) := by
  induction classes generalizing texts with
  | nil =>
    rw [List.flatMap_nil, List.append_nil, List.flatMap_nil, List.append_nil]
    rfl
  | cons cls classes ih =>
    rw [List.foldl_cons, ih, List.flatMap_cons, List.flatMap_cons, ← List.append_assoc, ← List.append_assoc]
    rfl

theorem foldl_includes {α : Type} (includes : List α) (piece : α → Text) (text : Text) :
    includes.foldl (fun text inc => text ++ piece inc) text = text ++ includes.flatMap piece := by
  induction includes generalizing text with
  | nil => exact (List.append_nil text).symm
  | cons inc includes ih => rw [List.foldl_cons, ih, List.flatMap_cons, ← List.append_assoc]

theorem macroName_plain (space : '$' ∉ ns) (file : '$' ∉ filePre) : '$' ∉ macroName ns filePre := by
  unfold macroName
  rw [List.mem_append, List.mem_append, List.mem_append]
  rintro (((here | here) | here) | here)
  · exact upper_plain space here
  · exact absurd here (by decide)
  · exact upper_plain file here
  · exact absurd here (by decide)

/-- **The generator writes the program down.** -/
theorem genCode_eq (sound : script.Sound) (all : ∀ desc ∈ allProto, desc.Plain) (plain : desc.Plain)
    (file : '$' ∉ filePre) : genCode script allProto fileLines structDict filePre parseInstruct desc =
      (compile script allProto fileLines structDict parseInstruct desc).map fun program =>
        (header script filePre program, source script filePre program) := by
  unfold genCode compile
  by_cases short : parseInstruct.length < 2
  · rw [if_pos short, if_pos short]
    rfl
  rw [if_neg short, if_neg short]
  cases package : desc.package.splitOn '.' with
  | nil => rfl
  | cons root rest =>
    cases rest with
    | nil => rfl
    | cons ns rest =>
      dsimp only
      by_cases apart : root ≠ protoNs
      · rw [if_pos apart, if_pos apart]
        rfl
      rw [if_neg apart, if_neg apart]
      have member : ns ∈ desc.package.splitOn '.' := by
        rw [package]
        exact List.mem_cons_of_mem root List.mem_cons_self
      have space := splitOn_plain plain.package member
      have name := macroName_plain space file
      have clear : ∀ hole, hole ≠ "max" → '$' ∉ frameValues ns [] (macroName ns filePre) filePre hole :=
        fun hole _ => frameValues_clear space List.not_mem_nil name file hole
      have included : ∀ text, desc.dependency.foldl (fun text inc =>
          text ++ script.hInclude.put (frameValues ns [] (macroName ns filePre) (incPre inc))) text =
            text ++ (desc.dependency.map incPre).flatMap fun pre =>
              script.hInclude.fill (frameValues ns [] (macroName ns filePre) pre) := by
        intro text
        rw [foldl_includes, List.flatMap_map]
        congr 1
        refine List.flatMap_congr fun inc inside => ?_
        exact sound.hInclude.put_eq fun hole _ =>
          frameValues_clear space List.not_mem_nil name (incPre_plain (plain.dependency inc inside)) hole
      have loop := @foldlM_eq _ _ _ _ (genMessage script allProto fileLines structDict ns) _ _ desc.messageType
        fun texts message member => genMessage_eq sound all space (plain.message message member).1
          (plain.message message member).2 texts
      rw [sound.hBegin.put_eq clear, sound.hNsBegin.put_eq clear, sound.ccBegin.put_eq clear,
        sound.hEnd.put_eq clear, included, loop]
      cases desc.messageType.mapM (classOf script allProto fileLines structDict) with
      | error fault => rfl
      | ok classes =>
        simp only [Except.map, Bind.bind, Except.bind, Pure.pure, Except.pure, foldl_addClass]
        rfl

end Refine

end Gen

end Yarf.Tools
