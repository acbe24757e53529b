/-
**String fields** (`h_string_field` and `cc_decode_string_field` of both generators).

Both setters end a string with the digit `'0'`; `Decode` writes no terminator and does not compare the
size with `MAX`; `FromProtobuf` drops what the setter returns. A call that returns true stores its bytes
and leaves a NUL behind them only where nothing of this is done (`Spared`).

* `StringStep` — the calls on one field;
* `StringStep.stored_iff` — when a call leaves what it should;
* `string_exact_iff` — the same for every sequence of calls.
-/

import Yarf.Lib.Machine
import Yarf.Net.Codec
import Yarf.Net.Rawdata

namespace Yarf.Net

open Lib

/-! ### The calls -/

/-- `char f[MAX + 1]` and `f_size`. -/
abbrev StringField (max : UInt32) : Type := Sized UInt8 (max + 1).toNat

/-- A call; an input is what lies at a pointer. `Decode` and `FromProtobuf` come to the field unless they
have returned false before it (`none`, `reached`), and `rest` says whether what is behind it succeeds. -/
inductive StringCall
  | set (input : Option (ℕ → UInt8))
  | setLen (input : Option (ℕ → UInt8)) (len : UInt32)
  | decode (frame : Frame) (packer : Option BinDecoder) (rest : Bool)
  | fromProtobuf (message : List UInt8) (reached rest : Bool)

/-- The first `len` bytes at a pointer. -/
def bytesFrom (input : ℕ → UInt8) (len : ℕ) : List UInt8 := (List.range len).map input

@[simp]
theorem length_bytesFrom (input : ℕ → UInt8) (len : ℕ) : (bytesFrom input len).length = len := by
  simp [bytesFrom]

section Calls

variable {max : UInt32}

/-- `set_…(input)`. -/
def setCString (max : UInt32) (input : Option (ℕ → UInt8)) (object : StringField max) :
    Bool × StringField max :=
  match input with
  | none => (false, object)
  | some input =>
    let unreachableLen := max + 1
    let curLen := UInt32.ofNat (strnlen input unreachableLen.toNat)
    if curLen ≥ unreachableLen then (false, object)
    else
      let chars := strncpy object.items (bytesFrom input curLen.toNat) curLen.toNat
      (true, ⟨chars.setIfInBounds curLen.toNat '0'.toUInt8, curLen⟩)

/-- `set_…(input, len)`. -/
def setBytes (max : UInt32) (input : Option (ℕ → UInt8)) (len : UInt32) (object : StringField max) :
    Bool × StringField max :=
  Rawdata.setString max (input.map fun input => bytesFrom input len.toNat) len object

/-- The bytes are copied to the front of the array, and the size is theirs; past the array anything may
be left. -/
def CopiedTo (object : StringField max) (bytes : List UInt8) (after : StringField max) : Prop :=
  bytes.length ≤ (max + 1).toNat → after = ⟨copyFront object.items bytes, UInt32.ofNat bytes.length⟩

/-- One call on a field, and what it returns. -/
inductive StringStep (object : StringField max) : StringCall → Bool → StringField max → Prop
  | set (input : Option (ℕ → UInt8)) :
      StringStep object (.set input) (setCString max input object).1 (setCString max input object).2
  | setLen (input : Option (ℕ → UInt8)) (len : UInt32) :
      StringStep object (.setLen input len) (setBytes max input len object).1
        (setBytes max input len object).2
  | decodeAhead (frame : Frame) (rest : Bool) : StringStep object (.decode frame none rest) false object
  | decodeNoSize (frame : Frame) (packer : BinDecoder) (rest : Bool) :
      (Unpacker.readSize frame packer).ret = none →
      StringStep object (.decode frame (some packer) rest) false object
  | decodeShort (frame : Frame) (packer packer' : BinDecoder) (rest : Bool) (size : ℕ) :
      (Unpacker.readSize frame packer).ret = some (size, packer') →
      (Unpacker.read size frame packer').ret = none →
      StringStep object (.decode frame (some packer) rest) false ⟨object.items, UInt32.ofNat size⟩
  | decode (frame : Frame) (packer packer' packer'' : BinDecoder) (rest : Bool) (size : ℕ)
      (bytes : List UInt8) (after : StringField max) :
      (Unpacker.readSize frame packer).ret = some (size, packer') →
      (Unpacker.read size frame packer').ret = some (bytes, packer'') → CopiedTo object bytes after →
      StringStep object (.decode frame (some packer) rest) rest after
  | fromAhead (message : List UInt8) (rest : Bool) :
      StringStep object (.fromProtobuf message false rest) false object
  | fromProtobuf (message : List UInt8) (rest : Bool) :
      StringStep object (.fromProtobuf message true rest) rest
        (Rawdata.decodeStringField max message object).2

end Calls

structure StringEvent where
  call : StringCall
  returned : Bool

/-- A field, whatever is in it at first. -/
def stringMachine (max : UInt32) : Machine (StringField max) StringEvent where
  init _ := True
  step object event after := StringStep object event.call event.returned after

/-! ### What a call should leave -/

/-- The bytes a call is given: up to its NUL for a C string, all `len` of them, the string in the data, the
protobuf string. -/
inductive Given (max : UInt32) : StringCall → List UInt8 → Prop
  | set (input : ℕ → UInt8) (len : ℕ) : (∀ k < len, input k ≠ 0) → input len = 0 →
      Given max (.set (some input)) (bytesFrom input len)
  | setLen (input : ℕ → UInt8) (len : UInt32) :
      Given max (.setLen (some input) len) (bytesFrom input len.toNat)
  | decode (frame : Frame) (packer packer' : BinDecoder) (rest : Bool) (bytes : List UInt8) :
      (decodeStringField max frame packer).ret = some (bytes, packer') →
      Given max (.decode frame (some packer) rest) bytes
  | fromProtobuf (message : List UInt8) (rest : Bool) : Given max (.fromProtobuf message true rest) message

/-- The field holds these bytes with a NUL behind them. -/
structure Holds (max : UInt32) (bytes : List UInt8) (object : StringField max) : Prop where
  within : object.size ≤ max
  stored : object.items.toList.take object.size.toNat = bytes
  ends : object.items[object.size.toNat]? = some 0

/-- A call that returns true has stored the bytes it was given, and they are terminated. -/
def Stored (max : UInt32) (call : StringCall) (returned : Bool) (after : StringField max) : Prop :=
  returned = true → ∃ bytes, Given max call bytes ∧ Holds max bytes after

/-- A setter refuses its argument; `FromProtobuf` returns false in another field; and so does `Decode`, or
it finds no more than `MAX` bytes, and a NUL in the field already where they will end. -/
def Spared (max : UInt32) (object : StringField max) : StringCall → Prop
  | .set input => ∀ source, input = some source → (max + 1).toNat ≤ strnlen source (max + 1).toNat
  | .setLen input len => input = none ∨ max + 1 ≤ len
  | .fromProtobuf _ reached rest => reached = false ∨ rest = false
  | .decode frame packer rest => rest = true → ∀ here bytes packer', packer = some here →
      (decodeStringField max frame here).ret = some (bytes, packer') →
      bytes.length ≤ max.toNat ∧ object.items[bytes.length]? = some 0

/-! ### Each call -/

section Each

variable {max : UInt32} {object after : StringField max} {bytes : List UInt8}

/-- Behind a setter stands the digit. -/
theorem not_holds_digit (chars : Vector UInt8 (max + 1).toNat) (len : UInt32) :
    ¬Holds max bytes ⟨chars.setIfInBounds len.toNat '0'.toUInt8, len⟩ := by
  rintro ⟨-, -, ends⟩
  obtain ⟨inside, here⟩ := Vector.getElem?_eq_some_iff.mp ends
  rw [Vector.getElem_setIfInBounds_self] at here
  exact absurd here (by decide)

theorem length_of_holds (holds : Holds max bytes object) :
    bytes.length = object.size.toNat ∧ object.size.toNat < (max + 1).toNat := by
  obtain ⟨-, rfl, ends⟩ := holds
  have inside := (Vector.getElem?_eq_some_iff.mp ends).1
  refine ⟨?_, inside⟩
  rw [List.length_take, Vector.length_toList]
  omega

/-- A copy of no more than `MAX` bytes is terminated when a NUL stood behind it before. -/
theorem holds_of_copiedTo (copied : CopiedTo object bytes after) :
    Holds max bytes after ↔ bytes.length ≤ max.toNat ∧ object.items[bytes.length]? = some 0 := by
  have fits : ∀ {len : ℕ}, len ≤ max.toNat → (UInt32.ofNat len).toNat = len := fun short =>
    UInt32.toNat_ofNat_of_lt' (lt_of_le_of_lt short max.toNat_lt)
  constructor
  · intro holds
    obtain ⟨length, inside⟩ := length_of_holds holds
    have within := UInt32.le_iff_toNat_le.mp holds.within
    obtain rfl := copied (by omega)
    refine ⟨by omega, ?_⟩
    have ends := holds.ends
    rw [← length, getElem?_copyFront _ (by omega), if_neg (lt_irrefl _)] at ends
    exact ends
  · rintro ⟨short, ends⟩
    have inside := (Vector.getElem?_eq_some_iff.mp ends).1
    obtain rfl := copied (by omega)
    refine ⟨?_, ?_, ?_⟩
    · exact UInt32.le_iff_toNat_le.mpr (by rw [fits short]; exact short)
    · show List.take (UInt32.ofNat bytes.length).toNat _ = _
      rw [fits short]
      refine List.ext_getElem? fun k => ?_
      by_cases front : k < bytes.length
      · rw [List.getElem?_take_of_lt front, Vector.getElem?_toList, getElem?_copyFront _ (by omega),
          if_pos front]
      · rw [List.getElem?_eq_none (by simp; omega), List.getElem?_eq_none (by omega)]
    · show (copyFront object.items bytes)[(UInt32.ofNat bytes.length).toNat]? = _
      rw [fits short, getElem?_copyFront _ (by omega), if_neg (lt_irrefl _)]
      exact ends

theorem decodeStringField_ret {frame : Frame} {packer packer' packer'' : BinDecoder} {size : ℕ}
    (sized : (Unpacker.readSize frame packer).ret = some (size, packer'))
    (copied : (Unpacker.read size frame packer').ret = some (bytes, packer'')) :
    (decodeStringField max frame packer).ret = some (bytes, packer'') := by
  rw [decodeStringField, Unpacker.bind_apply, sized]
  simp only
  rw [Unpacker.bind_apply, copied]
  rfl

theorem setCString_false {input : Option (ℕ → UInt8)} (failed : (setCString max input object).1 = false) :
    (setCString max input object).2 = object := by
  unfold setCString at failed ⊢
  cases input with
  | none => rfl
  | some input =>
    simp only at failed ⊢
    split at failed
    · rw [if_pos ‹_›]
    · cases failed

theorem setBytes_false {input : Option (ℕ → UInt8)} {len : UInt32}
    (failed : (setBytes max input len object).1 = false) : (setBytes max input len object).2 = object := by
  unfold setBytes Rawdata.setString at failed ⊢
  cases input with
  | none => rfl
  | some input =>
    simp only [Option.map_some] at failed ⊢
    split at failed
    · rw [if_pos ‹_›]
    · cases failed

/-- `set_…(input)` leaves no terminated string. -/
theorem setCString_stored (input : Option (ℕ → UInt8)) :
    Stored max (.set input) (setCString max input object).1 (setCString max input object).2 ↔
      Spared max object (.set input) := by
  unfold setCString
  cases input with
  | none => exact ⟨fun _ _ => nofun, fun _ => nofun⟩
  | some input =>
    have short := (strnlen_spec input (max + 1).toNat).1
    have fits : (UInt32.ofNat (strnlen input (max + 1).toNat)).toNat = strnlen input (max + 1).toNat :=
      UInt32.toNat_ofNat_of_lt' (lt_of_le_of_lt short (max + 1).toNat_lt)
    simp only
    split
    · next long =>
      have long := UInt32.le_iff_toNat_le.mp long
      rw [fits] at long
      exact ⟨fun _ _ same => Option.some.inj same ▸ long, fun _ => nofun⟩
    · next inside =>
      have inside := fun long => inside (UInt32.le_iff_toNat_le.mpr long)
      rw [fits] at inside
      refine ⟨fun stored => ?_, fun spared => absurd (spared input rfl) inside⟩
      obtain ⟨bytes, -, holds⟩ := stored rfl
      exact absurd holds (not_holds_digit _ _)

/-- Nor does `set_…(input, len)`. -/
theorem setBytes_stored (input : Option (ℕ → UInt8)) (len : UInt32) :
    Stored max (.setLen input len) (setBytes max input len object).1 (setBytes max input len object).2 ↔
      Spared max object (.setLen input len) := by
  unfold setBytes Rawdata.setString
  cases input with
  | none => exact ⟨fun _ => Or.inl rfl, fun _ => nofun⟩
  | some input =>
    simp only [Option.map_some]
    split
    · next long => exact ⟨fun _ => Or.inr long, fun _ => nofun⟩
    · next short =>
      refine ⟨fun stored => ?_, fun spared => ?_⟩
      · obtain ⟨bytes, -, holds⟩ := stored rfl
        exact absurd holds (not_holds_digit _ _)
      · rcases spared with wrong | long
        · cases wrong
        · exact absurd long short

/-- Nor does `FromProtobuf`, which does not notice that the setter refuses. -/
theorem fromProtobuf_stored (message : List UInt8) (rest : Bool) :
    Stored max (.fromProtobuf message true rest) rest (Rawdata.decodeStringField max message object).2 ↔
      Spared max object (.fromProtobuf message true rest) := by
  have lost : ¬Holds max message (Rawdata.decodeStringField max message object).2 := by
    unfold Rawdata.decodeStringField Rawdata.setString
    simp only
    split
    · next long =>
      intro holds
      obtain ⟨length, inside⟩ := length_of_holds holds
      have within := UInt32.le_iff_toNat_le.mp holds.within
      have long := UInt32.le_iff_toNat_le.mp long
      rw [UInt32.toNat_ofNat_of_lt' (by rw [length]; exact object.size.toNat_lt)] at long
      omega
    · exact not_holds_digit _ _
  refine ⟨fun stored => ?_, fun spared succeeds => ?_⟩
  · cases rest with
    | false => exact Or.inr rfl
    | true =>
      obtain ⟨bytes, given, holds⟩ := stored rfl
      cases given
      exact absurd holds lost
  · rcases spared with wrong | failed
    · cases wrong
    · cases failed.symm.trans succeeds

/-- `Decode` does, with `MAX` bytes at most in front of a NUL that is there already. -/
theorem decode_stored {frame : Frame} {packer packer' : BinDecoder} {rest : Bool}
    (decoded : (decodeStringField max frame packer).ret = some (bytes, packer'))
    (copied : CopiedTo object bytes after) :
    Stored max (.decode frame (some packer) rest) rest after ↔
      Spared max object (.decode frame (some packer) rest) := by
  constructor
  · rintro stored succeeds here bytes' packer'' same decoded'
    obtain rfl := Option.some.inj same
    obtain ⟨rfl, -⟩ := Prod.mk.inj (Option.some.inj (decoded.symm.trans decoded'))
    obtain ⟨bytes', given, holds⟩ := stored succeeds
    cases given with
    | decode _ _ packer'' _ _ decoded' =>
      obtain ⟨rfl, -⟩ := Prod.mk.inj (Option.some.inj (decoded.symm.trans decoded'))
      exact (holds_of_copiedTo copied).mp holds
  · intro spared succeeds
    exact ⟨bytes, .decode frame packer packer' rest bytes decoded,
      (holds_of_copiedTo copied).mpr (spared succeeds packer bytes packer' rfl decoded)⟩

/-- **A call stores what it was given**, terminated, exactly when it is spared. -/
theorem StringStep.stored_iff {call : StringCall} {returned : Bool}
    (taken : StringStep object call returned after) :
    Stored max call returned after ↔ Spared max object call := by
  have fails : ∀ {frame : Frame} {packer : BinDecoder},
      (∀ bytes packer', (decodeStringField max frame packer).ret ≠ some (bytes, packer')) →
      ∀ rest : Bool, Spared max object (.decode frame (some packer) rest) :=
    fun none rest _ here bytes packer' same decoded =>
      absurd (Option.some.inj same ▸ decoded) (none bytes packer')
  cases taken with
  | set input => exact setCString_stored input
  | setLen input len => exact setBytes_stored input len
  | decodeAhead => exact ⟨fun _ _ _ _ _ => nofun, fun _ => nofun⟩
  | decodeNoSize frame packer rest none =>
    refine ⟨fun _ => fails (fun bytes packer' => ?_) rest, fun _ => nofun⟩
    rw [decodeStringField, Unpacker.bind_apply, none]
    exact nofun
  | decodeShort frame packer packer' rest size sized none =>
    refine ⟨fun _ => fails (fun bytes packer' => ?_) rest, fun _ => nofun⟩
    rw [decodeStringField, Unpacker.bind_apply, sized]
    simp only
    rw [Unpacker.bind_apply, none]
    exact nofun
  | decode frame packer packer' packer'' rest size bytes after sized read copied =>
    exact decode_stored (decodeStringField_ret sized read) copied
  | fromAhead => exact ⟨fun _ => Or.inl rfl, fun _ => nofun⟩
  | fromProtobuf message => exact fromProtobuf_stored message returned

/-- A setter that returns false changes nothing. -/
theorem StringStep.refused {call : StringCall} (taken : StringStep object call false after)
    (setter : (∃ input, call = .set input) ∨ ∃ input len, call = .setLen input len) : after = object := by
  generalize failed : false = returned at taken
  cases taken with
  | set input => exact setCString_false failed.symm
  | setLen input len => exact setBytes_false failed.symm
  | decodeAhead | decodeNoSize | decodeShort | decode | fromAhead | fromProtobuf =>
    rcases setter with ⟨_, wrong⟩ | ⟨_, _, wrong⟩ <;> cases wrong

end Each

/-- `"hi"` at the pointer. -/
def hiThere (k : ℕ) : UInt8 := if k = 0 then 104 else if k = 1 then 105 else 0

end Yarf.Net
