/-
**The generated raw data** (`proto2obj4pb.py`).

For each message type the generator declares a struct of fixed arrays, `ToProtobuf` into a protobuf
message and `FromProtobuf` out of one. A schema is a message type with the options read from its
comments: a `MAX` for each string and each repeated field. Each kind of field is one definition per
template, under the template's name.

A protobuf message is what its accessors return; they store and return values unchanged, and the
pointers that `mutable_…` and `add_…` return are never null. The objects are the structs of the
generated header, whatever is in them.
-/

import Yarf.Lib.Sized

namespace Yarf.Net.Rawdata

open Lib

/-! ### Schemas, messages and objects -/

/-- The types `prototype2ctype` accepts besides messages and strings. -/
inductive ScalarType
  | double
  | uint64
  | int64
  | int32
  | bool
  | uint32

namespace ScalarType

/-- A `double` is carried as its bits: it is only assigned. -/
def Val : ScalarType → Type
  | .double | .uint64 => UInt64
  | .int64 => Int64
  | .int32 => Int32
  | .bool => Bool
  | .uint32 => UInt32

def zero : (type : ScalarType) → type.Val
  | .double | .uint64 => (0 : UInt64)
  | .int64 => (0 : Int64)
  | .int32 => (0 : Int32)
  | .bool => false
  | .uint32 => (0 : UInt32)

end ScalarType

mutual

/-- A field; `max` is its `MAX_…_SIZE`. -/
inductive Field
  | simple (type : ScalarType)
  | string (max : UInt32)
  | struct (message : Schema)
  | simpleVec (type : ScalarType) (max : UInt32)
  | structVec (message : Schema) (max : UInt32)

/-- A message type. -/
inductive Schema
  | nil
  | cons (field : Field) (rest : Schema)

end

mutual

/-- What the accessors of a protobuf field return. -/
def Field.Msg : Field → Type
  | .simple type => type.Val
  | .string _ => List UInt8
  | .struct message => message.Msg
  | .simpleVec type _ => List type.Val
  | .structVec message _ => List message.Msg

def Schema.Msg : Schema → Type
  | .nil => Unit
  | .cons field rest => field.Msg × rest.Msg

end

mutual

/-- The members the header declares for a field (`h_single_field`, `h_string_field`, `h_vec_field`). -/
def Field.Obj : Field → Type
  | .simple type => type.Val
  | .string max => Sized UInt8 (max + 1).toNat
  | .struct message => message.Obj
  | .simpleVec type max => Sized type.Val max.toNat
  | .structVec message max => Sized message.Obj max.toNat

def Schema.Obj : Schema → Type
  | .nil => Unit
  | .cons field rest => field.Obj × rest.Obj

end

mutual

/-- An empty target. -/
def Field.empty : (field : Field) → field.Msg
  | .simple type => type.zero
  | .string _ => []
  | .struct message => message.empty
  | .simpleVec _ _ => []
  | .structVec _ _ => []

def Schema.empty : (schema : Schema) → schema.Msg
  | .nil => ()
  | .cons field rest => (field.empty, rest.empty)

end

/-! ### `ToProtobuf` -/

/-- The `bool` that is returned and the target that is left; `none` if an array is read past its end. -/
abbrev Encode (α : Type) := α → Option (Bool × α)

section Encode

variable {α β : Type} {capacity : ℕ}

def encodeSimpleField (value : α) : Encode α := fun _ => some (true, value)

def encodeStructField (toProtobuf : Encode β) : Encode β := toProtobuf

def encodeStringField (object : Sized UInt8 capacity) : Encode (List UInt8) := fun _ =>
  object.used.map fun bytes => (true, bytes)

def encodeSimpleVecField (object : Sized α capacity) : Encode (List α) := fun target =>
  object.used.map fun values => (true, target ++ values)

/-- The loop over the elements of a repeated message. -/
def addEach (toProtobuf : α → Encode β) (empty : β) : List α → Encode (List β)
  | [], target => some (true, target)
  | object :: rest, target => do
    let (done, added) ← toProtobuf object empty
    if done then addEach toProtobuf empty rest (target ++ [added])
    else return (false, target ++ [added])

def encodeStructVecField (toProtobuf : α → Encode β) (empty : β) (object : Sized α capacity) :
    Encode (List β) := fun target => do
  let objects ← object.used
  addEach toProtobuf empty objects target

end Encode

mutual

def Field.encode : (field : Field) → field.Obj → Encode field.Msg
  | .simple _, value => encodeSimpleField value
  | .string _, object => encodeStringField object
  | .struct message, object => encodeStructField (message.encodeFields object)
  | .simpleVec _ _, object => encodeSimpleVecField object
  | .structVec message _, object => encodeStructVecField message.encodeFields message.empty object

def Schema.encodeFields : (schema : Schema) → schema.Obj → Encode schema.Msg
  | .nil, _ => fun target => some (true, target)
  | .cons field rest, (object, objects) => fun (target, targets) => do
    let (done, target) ← field.encode object target
    if done then
      let (done, targets) ← rest.encodeFields objects targets
      return (done, (target, targets))
    else return (false, (target, targets))

end

/-- `ToProtobuf(target)`, where the target may be null. -/
def Schema.toProtobuf (schema : Schema) (object : schema.Obj) :
    Option schema.Msg → Option (Bool × Option schema.Msg)
  | none => some (false, none)
  | some target => (schema.encodeFields object target).map (Prod.map id some)

/-! ### `FromProtobuf` -/

section Decode

variable {α β : Type}

/-- `set_…(input, len)`; the byte behind the string is a zero digit. -/
def setString (max : UInt32) (input : Option (List UInt8)) (len : UInt32)
    (object : Sized UInt8 (max + 1).toNat) : Bool × Sized UInt8 (max + 1).toNat :=
  match input with
  | none => (false, object)
  | some bytes =>
    if len ≥ max + 1 then (false, object)
    else
      let chars := strncpy object.items bytes len.toNat
      (true, ⟨chars.setIfInBounds len.toNat '0'.toUInt8, len⟩)

def decodeSimpleField (input : α) : Bool × α := (true, input)

/-- What the setter returns is dropped. -/
def decodeStringField (max : UInt32) (input : List UInt8) (object : Sized UInt8 (max + 1).toNat) :
    Bool × Sized UInt8 (max + 1).toNat :=
  (true, (setString max (some input) (UInt32.ofNat input.length) object).2)

def decodeStructField (fromProtobuf : β → α → Bool × α) (input : β) (object : α) : Bool × α :=
  fromProtobuf input object

/-- The size of a repeated field, then its elements. -/
def decodeVec (item : β → α → Bool × α) (max : UInt32) (input : List β)
    (object : Sized α max.toNat) : Bool × Sized α max.toNat :=
  let curSize := UInt32.ofNat input.length
  if curSize > max then (false, object)
  else
    let outcome := storeEach item (input.take curSize.toNat) object.items.toList
    (outcome.1, ⟨⟨outcome.2.toArray, by simp [outcome]⟩, curSize⟩)

def decodeSimpleVecField (max : UInt32) (input : List α) (object : Sized α max.toNat) :
    Bool × Sized α max.toNat :=
  decodeVec (fun value _ => (true, value)) max input object

def decodeStructVecField (fromProtobuf : β → α → Bool × α) (max : UInt32) (input : List β)
    (object : Sized α max.toNat) : Bool × Sized α max.toNat :=
  decodeVec fromProtobuf max input object

end Decode

mutual

def Field.decode : (field : Field) → field.Msg → field.Obj → Bool × field.Obj
  | .simple _, input, _ => decodeSimpleField input
  | .string max, input, object => decodeStringField max input object
  | .struct message, input, object => decodeStructField message.fromProtobuf input object
  | .simpleVec _ max, input, object => decodeSimpleVecField max input object
  | .structVec message max, input, object =>
    decodeStructVecField message.fromProtobuf max input object

/-- `FromProtobuf(input)`: whether it returns true, and the object it leaves. -/
def Schema.fromProtobuf : (schema : Schema) → schema.Msg → schema.Obj → Bool × schema.Obj
  | .nil, _, object => (true, object)
  | .cons field rest, (input, inputs), (object, objects) =>
    if (field.decode input object).1 then
      ((rest.fromProtobuf inputs objects).1,
        ((field.decode input object).2, (rest.fromProtobuf inputs objects).2))
    else (false, ((field.decode input object).2, objects))

end

end Yarf.Net.Rawdata
