/-
**The generated codec** (`proto2bin.py`).

A schema is a message type as the generator sees it: a list of fields, each of one of the five kinds
`gen_code` has templates for, nested to any depth. Encoding and decoding a field is one definition per
template, under the template's name; `Schema.encode` and `Schema.decode` put them together the way
`gen_code` does.

A value holds the elements in use: the size of a string or of a repeated field is the length of its
list, and may exceed `MAX`, which the templates test. A type cannot contain itself: the generated
structs hold their nested messages by value.

The templates convert between `size_t`, `uint32_t` and `int`; every conversion is written out.
-/

import Yarf.Net.BinPacker

namespace Yarf.Net

open Lib

/-! ### Schemas and values -/

mutual

/-- A field; `max` is its `MAX_…_SIZE`. -/
inductive Field
  | simple (type : IntType)
  | string (max : UInt32)
  | struct (message : Schema)
  | simpleVec (type : IntType) (max : UInt32)
  | structVec (message : Schema) (max : UInt32)

/-- A message type. -/
inductive Schema
  | nil
  | cons (field : Field) (rest : Schema)

end

mutual

def Field.Val : Field → Type
  | .simple type => type.Val
  | .string _ => List UInt8
  | .struct message => message.Val
  | .simpleVec type _ => List type.Val
  | .structVec message _ => List message.Val

def Schema.Val : Schema → Type
  | .nil => Unit
  | .cons field rest => field.Val × rest.Val

end

/-! ### Encoding -/

/-- An `Encode(data, len)` after some writes: the `len` it reports, and the writes. -/
abbrev Encode := ℤ → ℤ → List (ℤ × UInt8) → Option ℤ × List (ℤ × UInt8)

/-- `cc_encode_begin` and `cc_encode_end` around the fields, which use the parameter `len`. -/
def encodeBody (fields : ℤ → Packer Unit) : Encode := fun data len writes =>
  match fields len ⟨0, data, toSize len, writes⟩ with
  | (none, packer) => (none, packer.writes)
  | (some (), packer) => (some (toInt packer.writePos), packer.writes)

/-- A nested message: its bytes first, then its length in front of them. -/
def encodeNested (encode : Encode) (len : ℤ) : Packer Unit := fun packer =>
  let subPos := toInt ((packer.writePos + 4) % 2 ^ 64)
  let subLen := (len - subPos).bmod (2 ^ 32)
  match encode (packer.buffer + subPos) subLen packer.writes with
  | (none, writes) => (none, { packer with writes := writes })
  | (some subLen, writes) =>
    (do
      Packer.write (sizeBytes (subLen % 2 ^ 32).toNat)
      Packer.skipWritePos (toSize subLen)) { packer with writes := writes }

def encodeSimpleField (type : IntType) (value : type.Val) : Packer Unit :=
  Packer.write (type.toWire value)

def encodeStructField (encode : Encode) (len : ℤ) : Packer Unit := encodeNested encode len

def encodeStringField (max : UInt32) (bytes : List UInt8) : Packer Unit := do
  Packer.require (bytes.length ≤ max.toNat)
  Packer.write (sizeBytes bytes.length)
  Packer.write bytes

/-- The loop over the integers of a repeated field. -/
def writeEach (type : IntType) : List type.Val → Packer Unit
  | [] => pure ()
  | value :: rest => do
    Packer.write (type.toWire value)
    writeEach type rest

def encodeSimpleVecField (type : IntType) (max : UInt32) (values : List type.Val) : Packer Unit := do
  Packer.require (values.length ≤ max.toNat)
  Packer.write (sizeBytes values.length)
  writeEach type values

def encodeStructVecField {α : Type} (encode : α → Encode) (max : UInt32) (values : List α) (len : ℤ) :
    Packer Unit := do
  Packer.require (values.length ≤ max.toNat)
  Packer.write (sizeBytes values.length)
  match values with
  | [] => pure ()
  -- the `break` at the end of the loop's body: no second element is written
  | first :: _ => encodeNested (encode first) len

mutual

def Field.encode : (field : Field) → field.Val → ℤ → Packer Unit
  | .simple type, value, _ => encodeSimpleField type value
  | .string max, bytes, _ => encodeStringField max bytes
  | .struct message, value, len => encodeStructField (encodeBody (message.encodeFields value)) len
  | .simpleVec type max, values, _ => encodeSimpleVecField type max values
  | .structVec message max, values, len =>
    encodeStructVecField (fun value => encodeBody (message.encodeFields value)) max values len

def Schema.encodeFields : (schema : Schema) → schema.Val → ℤ → Packer Unit
  | .nil, _, _ => pure ()
  | .cons field rest, (value, values), len => do
    field.encode value len
    rest.encodeFields values len

end

/-- `Encode` into a buffer of `len` bytes at `data`. -/
def Schema.encode (schema : Schema) (value : schema.Val) : Encode :=
  encodeBody (schema.encodeFields value)

/-! ### Decoding -/

/-- `Decode(data + ReadPos, sub_len)` of a nested message. -/
def decodeAt {α : Type} (fields : Unpacker α) (subLen : ℕ) : Unpacker α := fun frame packer =>
  let offset := packer.buffer + packer.readPos
  let inner := fields { frame with stop := min frame.stop (offset + subLen) }
    ⟨0, offset, toSize (toInt subLen)⟩
  ⟨inner.ret.map fun done => (done.1, packer), .nested offset subLen frame.stop :: inner.seen⟩

/-- A nested message: it is decoded before its length is compared with what is left. -/
def decodeNested {α : Type} (fields : Unpacker α) : Unpacker α := do
  let subLen ← Unpacker.readSize
  let value ← decodeAt fields subLen
  Unpacker.skipReadPos subLen
  return value

def decodeSimpleField (type : IntType) : Unpacker type.Val := Unpacker.readInt type

def decodeStructField {α : Type} (fields : Unpacker α) : Unpacker α := decodeNested fields

/-- There is no comparison with `MAX`; the array has `MAX + 1` bytes. -/
def decodeStringField (max : UInt32) : Unpacker (List UInt8) := do
  let size ← Unpacker.readSize
  let bytes ← Unpacker.read size
  Unpacker.store (max + 1).toNat 0 size
  return bytes

/-- The loop over the elements of a repeated field, from the one numbered `idx` on. -/
def readEach {α : Type} (item : Unpacker α) (capacity : ℕ) : (idx count : ℕ) → Unpacker (List α)
  | _, 0 => pure []
  | idx, count + 1 => do
    Unpacker.store capacity idx 1
    let value ← item
    let values ← readEach item capacity (idx + 1) count
    return value :: values

/-- The size of a repeated field, then its elements. -/
def decodeVec {α : Type} (item : Unpacker α) (max : UInt32) : Unpacker (List α) := do
  let size ← Unpacker.readSize
  Unpacker.require (size ≤ max.toNat)
  readEach item max.toNat 0 size

def decodeSimpleVecField (type : IntType) (max : UInt32) : Unpacker (List type.Val) :=
  decodeVec (Unpacker.readInt type) max

def decodeStructVecField {α : Type} (fields : Unpacker α) (max : UInt32) : Unpacker (List α) :=
  decodeVec (decodeNested fields) max

mutual

def Field.decode : (field : Field) → Unpacker field.Val
  | .simple type => decodeSimpleField type
  | .string max => decodeStringField max
  | .struct message => decodeStructField message.decodeFields
  | .simpleVec type max => decodeSimpleVecField type max
  | .structVec message max => decodeStructVecField message.decodeFields max

def Schema.decodeFields : (schema : Schema) → Unpacker schema.Val
  | .nil => pure ()
  | .cons field rest => do
    let value ← field.decode
    let values ← rest.decodeFields
    return (value, values)

end

/-- What `Decode(data, len)` does with the bytes from `data` on: the object, if it returns true, and
what it looks at and stores to. -/
def Schema.decode (schema : Schema) (memory : ℕ → UInt8) (len : ℤ) :
    Option schema.Val × List Seen :=
  let outcome := schema.decodeFields ⟨memory, toSize len⟩ ⟨0, 0, toSize len⟩
  (outcome.ret.map Prod.fst, outcome.seen)

end Yarf.Net
