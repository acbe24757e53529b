/-
**What `FromProtobuf` keeps of a message.**

`Schema.content` is what an object stands for: the values, and of each array the elements in use.
`ToProtobuf` into an empty target writes the content (`Schema.encodeFields_empty`).

* `Schema.fromProtobuf_done` — `FromProtobuf` returns false when some repeated field has more elements
  than its `MAX`, and on no other ground: a string is not tested;
* `Schema.content_fromProtobuf` — if every string is storable the object stands for the message
  afterwards, whatever it held before;
* `Schema.storable_of_content` — a message that a blank object stands for afterwards was storable;
* `exact_or_refused_iff` — both, for messages, and for the messages that objects are written to.
-/

import Yarf.Net.Rawdata

namespace Yarf.Net.Rawdata

open Lib

/-! ### What an object stands for -/

mutual

def Field.content : (field : Field) → field.Obj → Option field.Msg
  | .simple _, value => some value
  | .string _, object => Sized.used object
  | .struct message, object => message.content object
  | .simpleVec _ _, object => Sized.used object
  | .structVec message _, object => (Sized.used object).bind (List.mapM message.content)

/-- The message an object stands for; `none` if some size is beyond its array. -/
def Schema.content : (schema : Schema) → schema.Obj → Option schema.Msg
  | .nil, _ => some ()
  | .cons field rest, (object, objects) =>
    (field.content object).bind fun message => (rest.content objects).map fun messages =>
      (message, messages)

end

section Encode

variable {α β : Type} {toProtobuf : α → Encode β} {content : α → Option β} {empty : β}

theorem addEach_eq (writes : ∀ object, toProtobuf object empty = (content object).map fun message =>
    (true, message)) (objects : List α) (target : List β) :
    addEach toProtobuf empty objects target =
      (objects.mapM content).map fun messages => (true, target ++ messages) := by
  induction objects generalizing target with
  | nil => simp [addEach]
  | cons object rest ih =>
    rw [addEach, writes, List.mapM_cons]
    cases content object with
    | none => rfl
    | some message =>
      cases all : rest.mapM content <;> simp [ih, all]

mutual

theorem Field.encode_empty : ∀ (field : Field) (object : field.Obj),
    field.encode object field.empty = (field.content object).map fun message => (true, message)
  | .simple _, _ => rfl
  | .string _, _ => rfl
  | .struct message, object => Schema.encodeFields_empty message object
  | .simpleVec _ _, _ => rfl
  | .structVec message _, object => by
    show (Sized.used object).bind _ = ((Sized.used object).bind _).map _
    cases Sized.used object with
    | none => rfl
    | some objects => exact addEach_eq (Schema.encodeFields_empty message) objects []

/-- **What `ToProtobuf` writes to an empty target.** -/
theorem Schema.encodeFields_empty : ∀ (schema : Schema) (object : schema.Obj),
    schema.encodeFields object schema.empty =
      (schema.content object).map fun message => (true, message)
  | .nil, _ => rfl
  | .cons field rest, (object, objects) => by
    rw [Schema.encodeFields, Schema.empty, Schema.content]
    simp only [Field.encode_empty field object, Schema.encodeFields_empty rest objects]
    cases field.content object with
    | none => rfl
    | some message => cases rest.content objects <;> rfl

end

theorem Schema.toProtobuf_eq_some_iff {schema : Schema} {object : schema.Obj} {message : schema.Msg} :
    schema.toProtobuf object (some schema.empty) = some (true, some message) ↔
      schema.content object = some message := by
  rw [Schema.toProtobuf, Schema.encodeFields_empty]
  cases schema.content object <;> simp

end Encode

/-! ### When `FromProtobuf` refuses -/

mutual

def Field.OverMax : (field : Field) → field.Msg → Prop
  | .simple _, _ | .string _, _ => False
  | .struct message, input => message.OverMax input
  | .simpleVec _ max, input => max < UInt32.ofNat (List.length input)
  | .structVec message max, input => max < UInt32.ofNat (List.length input) ∨
    ∃ element ∈ List.take (UInt32.ofNat (List.length input)).toNat input, message.OverMax element

/-- Some repeated field, at some level, has more elements than its `MAX`; the number of elements is
converted to a `uint32_t`. -/
def Schema.OverMax : (schema : Schema) → schema.Msg → Prop
  | .nil, _ => False
  | .cons field rest, (input, inputs) => field.OverMax input ∨ rest.OverMax inputs

end

section Decode

variable {α β : Type} {item : β → α → Bool × α} {accepts : β → Prop} {max : UInt32} {input : List β}
  {object : Sized α max.toNat}

theorem decodeVec_room (inside : ¬ UInt32.ofNat input.length > max) (items : Vector α max.toNat) :
    (input.take (UInt32.ofNat input.length).toNat).length ≤ items.toList.length := by
  rw [Vector.length_toList]
  exact (List.length_take_le _ _).trans (UInt32.le_iff_toNat_le.mp (UInt32.not_lt.mp inside))

theorem decodeVec_of_over (excess : UInt32.ofNat input.length > max) :
    decodeVec item max input object = (false, object) := if_pos excess

theorem decodeVec_fst (inside : ¬ UInt32.ofNat input.length > max) :
    (decodeVec item max input object).1 =
      (storeEach item (input.take (UInt32.ofNat input.length).toNat) object.items.toList).1 := by
  simp [decodeVec, inside]

theorem used_decodeVec (inside : ¬ UInt32.ofNat input.length > max) :
    (decodeVec item max input object).2.used =
      some ((storeEach item (input.take (UInt32.ofNat input.length).toNat)
        object.items.toList).2.take (UInt32.ofNat input.length).toNat) := by
  have fits : (UInt32.ofNat input.length).toNat ≤ max.toNat :=
    UInt32.le_iff_toNat_le.mp (UInt32.not_lt.mp inside)
  rw [Sized.used_eq_some]
  simp only [decodeVec, inside, if_false]
  exact ⟨fits, rfl⟩

theorem decodeVec_done (done : ∀ value object, (item value object).1 = true ↔ accepts value) :
    (decodeVec item max input object).1 = true ↔ ¬ max < UInt32.ofNat input.length ∧
      ∀ value ∈ input.take (UInt32.ofNat input.length).toNat, accepts value := by
  by_cases excess : UInt32.ofNat input.length > max
  · simp [decodeVec_of_over excess, excess]
  · rw [decodeVec_fst excess, and_iff_right excess]
    exact storeEach_done done (decodeVec_room excess _)

mutual

theorem Field.decode_done : ∀ (field : Field) (input : field.Msg) (object : field.Obj),
    (field.decode input object).1 = true ↔ ¬ field.OverMax input
  | .simple _, _, _ => iff_of_true rfl not_false
  | .string _, _, _ => iff_of_true rfl not_false
  | .struct message, input, object => Schema.fromProtobuf_done message input object
  | .simpleVec type max, input, object => by
    refine (@decodeVec_done _ type.Val _ (fun _ => True) max input object (by simp)).trans ?_
    simp [Field.OverMax]
  | .structVec message max, input, object => by
    refine (@decodeVec_done _ message.Msg _ _ max input object
      (Schema.fromProtobuf_done message)).trans ?_
    simp [Field.OverMax]

/-- **When `FromProtobuf` returns true**: it does not depend on the object, nor on any string. -/
theorem Schema.fromProtobuf_done : ∀ (schema : Schema) (input : schema.Msg) (object : schema.Obj),
    (schema.fromProtobuf input object).1 = true ↔ ¬ schema.OverMax input
  | .nil, _, _ => iff_of_true rfl not_false
  | .cons field rest, (input, inputs), (object, objects) => by
    rw [Schema.fromProtobuf, Schema.OverMax, not_or, ← Field.decode_done field input object,
      ← Schema.fromProtobuf_done rest inputs objects]
    split <;> simp_all

end

end Decode

/-! ### What is kept -/

mutual

def Field.Storable : (field : Field) → field.Msg → Prop
  | .simple _, _ => True
  | .string max, input => List.length input < (max + 1).toNat ∧ NulPadded input
  | .struct message, input => message.Storable input
  | .simpleVec _ max, input => List.length input ≤ max.toNat
  | .structVec message max, input =>
    List.length input ≤ max.toNat ∧ List.Forall message.Storable input

/-- At every level, a repeated field has at most `MAX` elements, and a string at most `MAX` bytes and
none but zeros behind its first zero. -/
def Schema.Storable : (schema : Schema) → schema.Msg → Prop
  | .nil, _ => True
  | .cons field rest, (input, inputs) => field.Storable input ∧ rest.Storable inputs

end

section Keep

variable {α β : Type} {item : β → α → Bool × α} {content : α → Option β} {keeps : β → Prop}
  {max : UInt32} {input : List β} {object : Sized α max.toNat}

theorem toNat_ofNat_length (fits : input.length ≤ max.toNat) :
    (UInt32.ofNat input.length).toNat = input.length :=
  UInt32.toNat_ofNat_of_lt' (fits.trans_lt max.toNat_lt)

/-- After a repeated field has been read, each element in use is the outcome of one store. -/
theorem decodeVec_forall₂ (done : (decodeVec item max input object).1 = true) :
    ∃ after, (decodeVec item max input object).2.used = some after ∧
      List.Forall₂ (fun value after => ∃ before ∈ object.items.toList,
        item value before = (true, after)) (input.take (UInt32.ofNat input.length).toNat) after := by
  by_cases excess : UInt32.ofNat input.length > max
  · simp [decodeVec_of_over excess] at done
  refine ⟨_, used_decodeVec excess, ?_⟩
  rw [decodeVec_fst excess] at done
  have each := storeEach_forall₂ (decodeVec_room excess _) done
  have count : (UInt32.ofNat input.length).toNat ≤ input.length := by
    rw [UInt32.toNat_ofNat']
    exact Nat.mod_le _ _
  rwa [List.length_take, min_eq_left count] at each

/-- Within its `MAX` a repeated field is kept if its elements are, whatever the object held. -/
theorem content_decodeVec (fits : input.length ≤ max.toNat)
    (done : (decodeVec item max input object).1 = true)
    (keep : ∀ value ∈ input, ∀ before after, item value before = (true, after) →
      content after = some value) :
    ((decodeVec item max input object).2.used.bind (List.mapM content)) = some input := by
  obtain ⟨after, used, each⟩ := decodeVec_forall₂ done
  rw [toNat_ofNat_length fits, List.take_length] at each
  rw [used, Option.bind_some, mapM_eq_some_iff]
  have both := (List.forall₂_and_left input after).mpr ⟨fun _ member => member, each⟩
  refine (both.imp ?_).flip
  rintro value after ⟨member, before, -, eq⟩
  exact keep value member before after eq

/-- A repeated field that is kept was within its `MAX`, and each element was kept. -/
theorem keeps_of_content (done : (decodeVec item max input object).1 = true)
    (kept : ((decodeVec item max input object).2.used.bind (List.mapM content)) = some input)
    (keep : ∀ value, ∀ before ∈ object.items.toList, ∀ after, item value before = (true, after) →
      content after = some value → keeps value) :
    input.length ≤ max.toNat ∧ ∀ value ∈ input, keeps value := by
  by_cases excess : UInt32.ofNat input.length > max
  · simp [decodeVec_of_over excess] at done
  obtain ⟨after, used, each⟩ := decodeVec_forall₂ done
  rw [used, Option.bind_some, mapM_eq_some_iff] at kept
  have fits : input.length ≤ max.toNat := by
    have counted : input.length ≤ (UInt32.ofNat input.length).toNat :=
      (each.length_eq.trans kept.length_eq).ge.trans (List.length_take_le _ _)
    exact counted.trans (UInt32.le_iff_toNat_le.mp (UInt32.not_lt.mp excess))
  rw [toNat_ofNat_length fits, List.take_length] at each
  refine ⟨fits, List.forall_mem_iff_getElem.mpr fun idx inside => ?_⟩
  have bound : idx < after.length := each.length_eq ▸ inside
  obtain ⟨before, member, eq⟩ := each.get inside bound
  exact keep _ before member _ eq (kept.get bound inside)

end Keep

/-! ### Strings -/

section Strings

variable {max : UInt32} {input : List UInt8} {object : Sized UInt8 (max + 1).toNat}

theorem setString_of_long (long : UInt32.ofNat input.length ≥ max + 1) :
    setString max (some input) (UInt32.ofNat input.length) object = (false, object) := if_pos long

theorem setString_of_short (short : ¬ UInt32.ofNat input.length ≥ max + 1) :
    setString max (some input) (UInt32.ofNat input.length) object =
      (true, ⟨(strncpy object.items input (UInt32.ofNat input.length).toNat).setIfInBounds
        (UInt32.ofNat input.length).toNat '0'.toUInt8, UInt32.ofNat input.length⟩) := if_neg short

/-- What is in use after a string has been set. -/
theorem used_setString (short : input.length < (max + 1).toNat) :
    (setString max (some input) (UInt32.ofNat input.length) object).2.used =
      some ((strncpy object.items input input.length).toList.take input.length) := by
  have whole : (UInt32.ofNat input.length).toNat = input.length :=
    UInt32.toNat_ofNat_of_lt' (short.trans (max + 1).toNat_lt)
  have short' : ¬ UInt32.ofNat input.length ≥ max + 1 := by
    rw [ge_iff_le, UInt32.le_iff_toNat_le, whole]
    exact Nat.not_le.mpr short
  rw [setString_of_short short', Sized.used_eq_some]
  simp only [whole, take_setIfInBounds]
  exact ⟨short.le, trivial⟩

/-- A string that fits and has nothing behind a zero is kept, whatever the object held. -/
theorem used_decodeStringField (short : input.length < (max + 1).toNat) :
    (decodeStringField max input object).2.used = some input ↔ NulPadded input := by
  rw [decodeStringField, used_setString short, Option.some_inj]
  exact take_strncpy_eq_iff short.le

end Strings

/-! ### Storable messages are kept -/

mutual

theorem Field.not_overMax : ∀ (field : Field) (input : field.Msg), field.Storable input →
    ¬ field.OverMax input
  | .simple _, _, _ => not_false
  | .string _, _, _ => not_false
  | .struct message, input, storable => Schema.not_overMax message input storable
  | .simpleVec type max, input, fits => by
    rw [Field.OverMax, UInt32.lt_iff_toNat_lt, @toNat_ofNat_length type.Val _ _ fits]
    exact Nat.not_lt.mpr fits
  | .structVec message max, input, ⟨fits, each⟩ => by
    rw [Field.OverMax, UInt32.lt_iff_toNat_lt, @toNat_ofNat_length message.Msg _ _ fits]
    rintro (excess | ⟨element, member, excess⟩)
    · exact absurd excess (Nat.not_lt.mpr fits)
    · have storable := List.forall_iff_forall_mem.mp each element (List.mem_of_mem_take member)
      exact Schema.not_overMax message element storable excess

theorem Schema.not_overMax : ∀ (schema : Schema) (input : schema.Msg), schema.Storable input →
    ¬ schema.OverMax input
  | .nil, _, _ => not_false
  | .cons field rest, (input, inputs), ⟨here, there⟩ =>
    not_or.mpr ⟨Field.not_overMax field input here, Schema.not_overMax rest inputs there⟩

end

mutual

theorem Field.content_decode : ∀ (field : Field) (input : field.Msg) (existing : field.Obj),
    field.Storable input → field.content (field.decode input existing).2 = some input
  | .simple _, _, _, _ => rfl
  | .string _, _, _, ⟨short, padded⟩ => (used_decodeStringField short).mpr padded
  | .struct message, input, existing, storable =>
    Schema.content_fromProtobuf message input existing storable
  | .simpleVec type max, input, existing, fits => by
    have done := (Field.decode_done (.simpleVec type max) input existing).mpr
      (Field.not_overMax (.simpleVec type max) input fits)
    have kept := @content_decodeVec type.Val _ _ some max input existing fits done (by simp)
    rwa [bind_mapM_some] at kept
  | .structVec message max, input, existing, ⟨fits, each⟩ => by
    have done := (Field.decode_done (.structVec message max) input existing).mpr
      (Field.not_overMax (.structVec message max) input ⟨fits, each⟩)
    refine content_decodeVec fits done fun value member before after eq => ?_
    have storable := List.forall_iff_forall_mem.mp each value member
    rw [← Schema.content_fromProtobuf message value before storable, eq]

/-- **A storable message is kept**, whatever the object held. -/
theorem Schema.content_fromProtobuf : ∀ (schema : Schema) (input : schema.Msg)
    (existing : schema.Obj), schema.Storable input →
    schema.content (schema.fromProtobuf input existing).2 = some input
  | .nil, _, _, _ => rfl
  | .cons field rest, (input, inputs), (existing, others), ⟨here, there⟩ => by
    have done := (Field.decode_done field input existing).mpr (Field.not_overMax field input here)
    rw [Schema.fromProtobuf, if_pos done, Schema.content, Field.content_decode field input existing here,
      Schema.content_fromProtobuf rest inputs others there]
    rfl

end

/-! ### Nothing else is -/

/-- No string fits an array of no chars, and no size is right for one. -/
def blankString (max : UInt32) : Sized UInt8 (max + 1).toNat :=
  ⟨Vector.replicate _ 0, if max + 1 = 0 then 1 else 0⟩

mutual

def Field.blank : (field : Field) → field.Obj
  | .simple type => type.zero
  | .string max => blankString max
  | .struct message => message.blank
  | .simpleVec type _ => ⟨Vector.replicate _ type.zero, 0⟩
  | .structVec message _ => ⟨Vector.replicate _ message.blank, 0⟩

/-- An object in which everything is zero. -/
def Schema.blank : (schema : Schema) → schema.Obj
  | .nil => ()
  | .cons field rest => (field.blank, rest.blank)

end

theorem storable_of_used {max : UInt32} {input : List UInt8}
    (kept : (decodeStringField max input (blankString max)).2.used = some input) :
    input.length < (max + 1).toNat ∧ NulPadded input := by
  by_cases long : UInt32.ofNat input.length ≥ max + 1
  · rw [decodeStringField, setString_of_long long, Sized.used_eq_some] at kept
    obtain ⟨inside, rfl⟩ := kept
    simp only [blankString] at inside ⊢
    split_ifs at inside ⊢ with none
    · simp [none] at inside
    · refine ⟨?_, by simp [NulPadded]⟩
      simp [Nat.pos_iff_ne_zero, ← UInt32.toNat_inj] at none ⊢
      exact none
  · have size : (UInt32.ofNat input.length).toNat = input.length := by
      have length := Sized.length_of_used kept
      rw [decodeStringField, setString_of_short long] at length
      exact length.symm
    have short : input.length < (max + 1).toNat := by
      rw [← size]
      exact UInt32.lt_iff_toNat_lt.mp (UInt32.not_le.mp long)
    exact ⟨short, (used_decodeStringField short).mp kept⟩

mutual

theorem Field.storable_of_content : ∀ (field : Field) (input : field.Msg),
    (field.decode input field.blank).1 = true →
    field.content (field.decode input field.blank).2 = some input → field.Storable input
  | .simple _, _, _, _ => trivial
  | .string _, _, _, kept => storable_of_used kept
  | .struct message, input, done, kept => Schema.storable_of_content message input done kept
  | .simpleVec type max, input, done, kept => by
    refine (@keeps_of_content type.Val _ _ some (fun _ => True) max input _ done ?_ (by simp)).1
    rw [bind_mapM_some]
    exact kept
  | .structVec message max, input, done, kept => by
    have blank : ∀ before ∈ (Vector.replicate max.toNat message.blank).toList,
        before = message.blank := by simp
    have keeps := @keeps_of_content message.Obj _ _ _ message.Storable max input
      (Field.blank (.structVec message max)) done kept fun value before member after eq kept => by
        rw [blank before member] at eq
        refine Schema.storable_of_content message value ?_ ?_
        · rw [eq]
        · rw [eq]
          exact kept
    exact ⟨keeps.1, List.forall_iff_forall_mem.mpr keeps.2⟩

/-- **A message that a blank object keeps** is storable. -/
theorem Schema.storable_of_content : ∀ (schema : Schema) (input : schema.Msg),
    (schema.fromProtobuf input schema.blank).1 = true →
    schema.content (schema.fromProtobuf input schema.blank).2 = some input → schema.Storable input
  | .nil, _, _, _ => trivial
  | .cons field rest, (input, inputs), done, kept => by
    rw [Schema.blank, Schema.fromProtobuf] at done kept
    split_ifs at done kept with first
    obtain ⟨message, here, there⟩ := Option.bind_eq_some_iff.mp kept
    obtain ⟨messages, others, same⟩ := Option.map_eq_some_iff.mp there
    obtain ⟨rfl, rfl⟩ := Prod.mk.inj same
    exact ⟨Field.storable_of_content field message first here,
      Schema.storable_of_content rest messages done others⟩

end

/-! ### The messages objects are written to -/

mutual

def Field.WithinMax : (field : Field) → field.Obj → Prop
  | .simple _, _ => True
  | .string max, object => Sized.size object ≤ max
  | .struct message, object => message.WithinMax object
  | .simpleVec _ max, object => Sized.size object ≤ max
  | .structVec message max, object => Sized.size object ≤ max ∧
    ∀ objects ∈ Sized.used object, List.Forall message.WithinMax objects

/-- The sizes of an object are within their `MAX`, and so are those of the objects in use in it. -/
def Schema.WithinMax : (schema : Schema) → schema.Obj → Prop
  | .nil, _ => True
  | .cons field rest, (object, objects) => field.WithinMax object ∧ rest.WithinMax objects

end

mutual

def Field.Plain : (field : Field) → field.Obj → Prop
  | .simple _, _ | .simpleVec _ _, _ => True
  | .string max, object => max + 1 ≠ 0 ∧ ∀ chars ∈ Sized.used object, NulPadded chars
  | .struct message, object => message.Plain object
  | .structVec message _, object =>
    ∀ objects ∈ Sized.used object, List.Forall message.Plain objects

/-- No string in use in an object has anything but zeros behind its first zero (and no array of chars
is empty). -/
def Schema.Plain : (schema : Schema) → schema.Obj → Prop
  | .nil, _ => True
  | .cons field rest, (object, objects) => field.Plain object ∧ rest.Plain objects

end

section Objects

variable {α β : Type} {max : UInt32} {content : α → Option β} {keeps : β → Prop} {plain : α → Prop}

theorem used_of_le {object : Sized α max.toNat} (within : object.size ≤ max) :
    object.used = some (object.items.toList.take object.size.toNat) :=
  if_pos (UInt32.le_iff_toNat_le.mp within)

theorem storable_string_iff (object : Sized UInt8 (max + 1).toNat) (within : object.size ≤ max) :
    (∃ bytes, object.used = some bytes ∧ bytes.length < (max + 1).toNat ∧ NulPadded bytes) ↔
      max + 1 ≠ 0 ∧ ∀ chars ∈ object.used, NulPadded chars := by
  constructor
  · rintro ⟨bytes, used, short, padded⟩
    refine ⟨fun none => by simp [none] at short, fun chars member => ?_⟩
    cases used.symm.trans member
    exact padded
  · rintro ⟨some, padded⟩
    have short : object.size.toNat < (max + 1).toNat := by
      have sum : (max + 1).toNat = (max.toNat + 1) % 2 ^ 32 := UInt32.toNat_add max 1
      have pos : (max + 1).toNat ≠ 0 := fun none => some (UInt32.toNat_inj.mp none)
      have bound := UInt32.le_iff_toNat_le.mp within
      have small := max.toNat_lt
      omega
    have used : object.used = _ := if_pos short.le
    exact ⟨_, used, by rw [Sized.length_of_used used]; exact short, padded _ used⟩

theorem storable_structVec_iff {object : Sized α max.toNat} (within : object.size ≤ max)
    (each : ∀ objects ∈ object.used, ∀ element ∈ objects,
      (∃ message, content element = some message ∧ keeps message) ↔ plain element) :
    (∃ input, object.used.bind (List.mapM content) = some input ∧ input.length ≤ max.toNat ∧
      List.Forall keeps input) ↔ ∀ objects ∈ object.used, List.Forall plain objects := by
  have used := used_of_le within
  rw [used] at each ⊢
  simp only [Option.bind_some, Option.mem_some_iff, forall_eq', List.forall_iff_forall_mem] at each ⊢
  rw [← forall₂_congr each, ← exists_mapM_iff]
  refine exists_congr fun input => and_congr_right fun all => and_iff_right ?_
  rw [← (mapM_eq_some_iff.mp all).length_eq]
  exact (List.length_take_le _ _).trans (UInt32.le_iff_toNat_le.mp within)

mutual

theorem Field.storable_iff_plain : ∀ (field : Field) (object : field.Obj), field.WithinMax object →
    ((∃ message, field.content object = some message ∧ field.Storable message) ↔ field.Plain object)
  | .simple _, object, _ => iff_of_true ⟨object, rfl, trivial⟩ trivial
  | .string _, object, within => storable_string_iff object within
  | .struct message, object, within => Schema.storable_iff_plain message object within
  | .simpleVec type max, object, within => by
    have used := @used_of_le type.Val max object within
    have length := Sized.length_of_used used
    exact iff_of_true ⟨_, used, length.trans_le (UInt32.le_iff_toNat_le.mp within)⟩ trivial
  | .structVec message max, object, ⟨within, each⟩ =>
    storable_structVec_iff within fun objects used element member =>
      Schema.storable_iff_plain message element
        (List.forall_iff_forall_mem.mp (each objects used) element member)

/-- **An object stands for a storable message** when its strings are plain. -/
theorem Schema.storable_iff_plain : ∀ (schema : Schema) (object : schema.Obj),
    schema.WithinMax object →
    ((∃ message, schema.content object = some message ∧ schema.Storable message) ↔
      schema.Plain object)
  | .nil, _, _ => iff_of_true ⟨(), rfl, trivial⟩ trivial
  | .cons field rest, (object, objects), ⟨here, there⟩ => by
    rw [Schema.Plain, ← Field.storable_iff_plain field object here,
      ← Schema.storable_iff_plain rest objects there]
    constructor
    · rintro ⟨_, kept, storable⟩
      obtain ⟨message, here, mapped⟩ := Option.bind_eq_some_iff.mp kept
      obtain ⟨messages, there, rfl⟩ := Option.map_eq_some_iff.mp mapped
      exact ⟨⟨message, here, storable.1⟩, messages, there, storable.2⟩
    · rintro ⟨⟨message, kept, storable⟩, messages, others, all⟩
      refine ⟨(message, messages), ?_, storable, all⟩
      rw [Schema.content, kept, others]
      rfl

end

end Objects

/-! ### Exact or refused -/

/-- `FromProtobuf(input)` into any object returns false, or returns true and `ToProtobuf` of the object
into an empty target then gives `input` back. -/
def ExactOrRefused (schema : Schema) (input : schema.Msg) : Prop :=
  ∀ existing, (schema.fromProtobuf input existing).1 = false ∨
    (schema.fromProtobuf input existing).1 = true ∧
      schema.toProtobuf (schema.fromProtobuf input existing).2 (some schema.empty) =
        some (true, some input)

/-- `FromProtobuf(ToProtobuf(object))` into any object returns true and leaves there what is in use in
`object`. -/
def Reproduced (schema : Schema) (object : schema.Obj) : Prop :=
  ∀ existing, ∃ message,
    schema.toProtobuf object (some schema.empty) = some (true, some message) ∧
      (schema.fromProtobuf message existing).1 = true ∧
        schema.content (schema.fromProtobuf message existing).2 = schema.content object

theorem exactOrRefused_iff (schema : Schema) (input : schema.Msg) :
    ExactOrRefused schema input ↔ schema.OverMax input ∨ schema.Storable input := by
  simp only [ExactOrRefused, Schema.toProtobuf_eq_some_iff, ← Bool.not_eq_true,
    Schema.fromProtobuf_done, not_not]
  constructor
  · intro exact
    refine (exact schema.blank).imp_right fun ⟨done, kept⟩ => ?_
    exact Schema.storable_of_content schema input
      ((Schema.fromProtobuf_done schema input _).mpr done) kept
  · rintro (excess | storable) existing
    · exact .inl excess
    · exact .inr ⟨Schema.not_overMax schema input storable,
        Schema.content_fromProtobuf schema input existing storable⟩

theorem reproduced_iff (schema : Schema) (object : schema.Obj) :
    Reproduced schema object ↔
      ∃ message, schema.content object = some message ∧ schema.Storable message := by
  simp only [Reproduced, Schema.toProtobuf_eq_some_iff]
  constructor
  · intro reproduced
    obtain ⟨message, stands, done, kept⟩ := reproduced schema.blank
    exact ⟨message, stands, Schema.storable_of_content schema message done (kept.trans stands)⟩
  · rintro ⟨message, stands, storable⟩ existing
    refine ⟨message, stands, ?_, ?_⟩
    · exact (Schema.fromProtobuf_done schema message existing).mpr
        (Schema.not_overMax schema message storable)
    · rw [Schema.content_fromProtobuf schema message existing storable, stands]

/-- **When `FromProtobuf` is exact or refuses**: when some repeated field is over its `MAX`, or the
message is storable; and an object is reproduced when its strings are plain. -/
theorem exact_or_refused_iff (schema : Schema) :
    (∀ input, ExactOrRefused schema input ↔ schema.OverMax input ∨ schema.Storable input) ∧
      ∀ object, schema.WithinMax object → (Reproduced schema object ↔ schema.Plain object) := by
  refine ⟨exactOrRefused_iff schema, fun object within => ?_⟩
  rw [reproduced_iff, Schema.storable_iff_plain schema object within]

/-- A message type with one string of at most two bytes. -/
def nameOnly : Schema := .cons (.string 2) .nil

/-- An object whose string is `hi`. -/
def heldName : nameOnly.Obj := (⟨#v[104, 105, 48], 2⟩, ())

/-- The string of the object is reproduced, and `ok` is kept exactly. -/
theorem exact_or_refused_iff_short :
    Reproduced nameOnly heldName ∧ ExactOrRefused nameOnly ([111, 107], ()) := by
  have within : nameOnly.WithinMax heldName := ⟨show (2 : UInt32) ≤ 2 by decide, trivial⟩
  have plain : nameOnly.Plain heldName := by
    refine ⟨⟨by decide, fun chars member => ?_⟩, trivial⟩
    cases (show some [104, 105] = some chars from member)
    decide
  have storable : nameOnly.Storable ([111, 107], ()) := ⟨⟨by decide, by decide⟩, trivial⟩
  exact ⟨((exact_or_refused_iff nameOnly).2 heldName within).mpr plain,
    ((exact_or_refused_iff nameOnly).1 _).mpr (.inr storable)⟩

/-- Three bytes are one too many: `FromProtobuf` returns true, and the object still holds `hi`. -/
theorem exact_or_refused_fails_long : ¬ ExactOrRefused nameOnly ([97, 98, 99], ()) := by
  intro exact
  have done : (nameOnly.fromProtobuf ([97, 98, 99], ()) heldName).1 = true := rfl
  have wrote : nameOnly.toProtobuf (nameOnly.fromProtobuf ([97, 98, 99], ()) heldName).2
      (some nameOnly.empty) = some (true, some ([104, 105], ())) := rfl
  obtain refused | ⟨-, same⟩ := exact heldName
  · exact absurd (refused.symm.trans done) (by decide)
  · have equal := Option.some.inj (Prod.mk.inj (Option.some.inj (wrote.symm.trans same))).2
    have chars : ([104, 105] : List UInt8) = [97, 98, 99] := congrArg Prod.fst equal
    exact absurd chars (by decide)

end Yarf.Net.Rawdata
