/-
**The packer** (`bin_packer.h`).

`BinEncoder` and `BinDecoder` keep a position below a length and refuse what would pass the length.
`size_t` is a natural number with every sum reduced modulo `2 ^ 64`; a buffer is the place it starts
at, counted from the data of the outermost call.

An encoder carries the bytes it has written so far, whether or not the call that wrote them succeeds
in the end. A decoder carries what it has looked at: each copy with its place and size, and each length
of a nested message when it becomes known. With both it notes the end of the message it is reading
(`stop`); the source has no such field, and nothing is decided by it. It also carries which elements of
the arrays in the object it has stored to.

The integers of the generated code are written in network order, which is the default of `hton`.
-/

import Mathlib.Algebra.Group.Int.Defs
import Yarf.Lib.Bytes

namespace Yarf.Net

open Lib

/-- `static_cast<size_t>` of an `int`. -/
def toSize (value : ℤ) : ℕ := (value % 2 ^ 64).toNat

/-- The conversion of an unsigned value to `int`. -/
def toInt (value : ℕ) : ℤ := (value : ℤ).bmod (2 ^ 32)

/-- The conversions change nothing below `2 ^ 31`. -/
theorem toInt_of_lt {value : ℕ} (small : value < 2 ^ 31) : toInt value = value := by
  unfold toInt
  rw [Int.bmod_eq_of_le] <;> omega

theorem toSize_natCast {value : ℕ} (small : value < 2 ^ 64) : toSize value = value := by
  unfold toSize
  omega

theorem toSize_toInt {value : ℕ} (small : value < 2 ^ 31) : toSize (toInt value) = value := by
  rw [toInt_of_lt small, toSize_natCast (by omega)]

/-- The integer types of the generated fields. -/
inductive IntType
  | int32
  | uint32
  | int64
  | uint64
  deriving DecidableEq

namespace IntType

/-- `sizeof`. -/
def width : IntType → ℕ
  | .int32 | .uint32 => 4
  | .int64 | .uint64 => 8

def Val : IntType → Type
  | .int32 => Int32
  | .uint32 => UInt32
  | .int64 => Int64
  | .uint64 => UInt64

/-- The bits of a value, read as an unsigned number. -/
def bits : (t : IntType) → t.Val → ℕ
  | .int32, value => Int32.toUInt32 value |>.toNat
  | .uint32, value => UInt32.toNat value
  | .int64, value => Int64.toUInt64 value |>.toNat
  | .uint64, value => UInt64.toNat value

def ofBits : (t : IntType) → ℕ → t.Val
  | .int32, bits => (UInt32.ofNat bits).toInt32
  | .uint32, bits => UInt32.ofNat bits
  | .int64, bits => (UInt64.ofNat bits).toInt64
  | .uint64, bits => UInt64.ofNat bits

theorem bits_lt (t : IntType) (value : t.Val) : t.bits value < 256 ^ t.width := by
  cases t with
  | int32 => exact UInt32.toNat_lt _
  | uint32 => exact UInt32.toNat_lt _
  | int64 => exact UInt64.toNat_lt _
  | uint64 => exact UInt64.toNat_lt _

theorem ofBits_bits (t : IntType) (value : t.Val) : t.ofBits (t.bits value) = value := by
  cases t with
  | int32 => exact congrArg UInt32.toInt32 UInt32.ofNat_toNat
  | uint32 => exact UInt32.ofNat_toNat
  | int64 => exact congrArg UInt64.toInt64 UInt64.ofNat_toNat
  | uint64 => exact UInt64.ofNat_toNat

/-- The bytes of a value on the wire. -/
def toWire (t : IntType) (value : t.Val) : List UInt8 := beBytes t.width (t.bits value)

def ofWire (t : IntType) (bytes : List UInt8) : t.Val := t.ofBits (beNat bytes)

@[simp]
theorem length_toWire (t : IntType) (value : t.Val) : (t.toWire value).length = t.width :=
  length_beBytes _ _

theorem ofWire_toWire (t : IntType) (value : t.Val) : t.ofWire (t.toWire value) = value := by
  rw [ofWire, toWire, beNat_beBytes_of_lt (t.bits_lt value), t.ofBits_bits]

end IntType

/-- A size or a length on the wire: a `uint32_t`. -/
def sizeBytes (size : ℕ) : List UInt8 := beBytes 4 size

@[simp]
theorem length_sizeBytes (size : ℕ) : (sizeBytes size).length = 4 := length_beBytes _ _

theorem beNat_sizeBytes {size : ℕ} (fits : size < 2 ^ 32) : beNat (sizeBytes size) = size :=
  beNat_beBytes_of_lt (by omega)

/-! ### Encoding -/

structure BinEncoder where
  writePos : ℕ
  buffer : ℤ
  len : ℕ
  /-- The bytes written so far, oldest first. -/
  writes : List (ℤ × UInt8)

/-- Code that packs: `none` is a `return false`. -/
abbrev Packer (α : Type) : Type := BinEncoder → Option α × BinEncoder

namespace Packer

instance : Monad Packer where
  pure value := fun packer => (some value, packer)
  bind first next := fun packer =>
    match first packer with
    | (none, packer) => (none, packer)
    | (some value, packer) => next value packer

/-- `return false` unless the condition holds. -/
def require (condition : Prop) [Decidable condition] : Packer Unit :=
  fun packer => (if condition then some () else none, packer)

/-- The address function of a block at the packer's position. -/
def here (packer : BinEncoder) : ℕ → ℤ := fun i => packer.buffer + packer.writePos + i

/-- `Write`: of an integer given by its bytes, or of a block. -/
def write (bytes : List UInt8) : Packer Unit := fun packer =>
  if packer.len < (packer.writePos + bytes.length) % 2 ^ 64 then (none, packer)
  else (some (), { packer with
    writes := packer.writes ++ cells (here packer) bytes
    writePos := (packer.writePos + bytes.length) % 2 ^ 64 })

/-- `SkipWritePos`. -/
def skipWritePos (len : ℕ) : Packer Unit := fun packer =>
  if packer.len < (packer.writePos + len) % 2 ^ 64 then (none, packer)
  else (some (), { packer with writePos := (packer.writePos + len) % 2 ^ 64 })

theorem bind_apply {α β : Type} (first : Packer α) (next : α → Packer β) (packer : BinEncoder) :
    (first >>= next) packer = match first packer with
      | (none, packer) => (none, packer)
      | (some value, packer) => next value packer := rfl

end Packer

theorem here_injective (packer : BinEncoder) : Function.Injective (Packer.here packer) := by
  intro i j same
  unfold Packer.here at same
  omega

/-- Behind a block begins the rest of the buffer. -/
theorem here_add {packer packer' : BinEncoder} {count : ℕ} (buffer : packer'.buffer = packer.buffer)
    (pos : packer'.writePos = packer.writePos + count) :
    Packer.here packer' = fun i => Packer.here packer (count + i) := by
  funext i
  unfold Packer.here
  rw [buffer, pos]
  push_cast
  omega

/-! ### Decoding -/

/-- What a decoder looks at, and where it stores. -/
inductive Seen
  /-- A copy of `count` bytes from `offset`, in a message that ends at `stop`. -/
  | read (offset count stop : ℕ)
  /-- A nested message of announced length `len` begins at `offset`; the message around it ends at
  `stop`. -/
  | nested (offset len stop : ℕ)
  /-- Elements of an array of `capacity` elements are stored to: `count` of them, from the one numbered
  `first` on. -/
  | stored (capacity first count : ℕ)
  deriving DecidableEq

structure BinDecoder where
  readPos : ℕ
  buffer : ℕ
  len : ℕ

/-- What does not change while one message is decoded. -/
structure Frame where
  /-- The bytes from the outermost data on. -/
  memory : ℕ → UInt8
  /-- Where the message, and every message around it, ends at the latest. -/
  stop : ℕ

/-- What a piece of decoding returns, and what it has looked at; `none` is a `return false`. -/
structure Outcome (α : Type) where
  ret : Option (α × BinDecoder)
  seen : List Seen

/-- Code that unpacks. -/
abbrev Unpacker (α : Type) : Type := Frame → BinDecoder → Outcome α

namespace Unpacker

instance : Monad Unpacker where
  pure value := fun _ packer => ⟨some (value, packer), []⟩
  bind first next := fun frame packer =>
    match (first frame packer).ret with
    | none => ⟨none, (first frame packer).seen⟩
    | some (value, packer') =>
      ⟨(next value frame packer').ret,
        (first frame packer).seen ++ (next value frame packer').seen⟩

/-- `return false` unless the condition holds. -/
def require (condition : Prop) [Decidable condition] : Unpacker Unit :=
  fun _ packer => ⟨if condition then some ((), packer) else none, []⟩

/-- `Read`: of `count` bytes. -/
def read (count : ℕ) : Unpacker (List UInt8) := fun frame packer =>
  if packer.len < (packer.readPos + count) % 2 ^ 64 then ⟨none, []⟩
  else ⟨some (load frame.memory (span (packer.buffer + packer.readPos)) count,
      { packer with readPos := (packer.readPos + count) % 2 ^ 64 }),
    [.read (packer.buffer + packer.readPos) count frame.stop]⟩

/-- Elements of an array in the object are stored to. -/
def store (capacity first count : ℕ) : Unpacker Unit := fun _ packer =>
  ⟨some ((), packer), [.stored capacity first count]⟩

/-- `SkipReadPos`. -/
def skipReadPos (count : ℕ) : Unpacker Unit := fun _ packer =>
  if packer.len < (packer.readPos + count) % 2 ^ 64 then ⟨none, []⟩
  else ⟨some ((), { packer with readPos := (packer.readPos + count) % 2 ^ 64 }), []⟩

/-- `Read` of a `uint32_t`. -/
def readSize : Unpacker ℕ := do
  let bytes ← read 4
  return beNat bytes

/-- `Read` of an integer. -/
def readInt (t : IntType) : Unpacker t.Val := do
  let bytes ← read t.width
  return t.ofWire bytes

theorem bind_apply {α β : Type} (first : Unpacker α) (next : α → Unpacker β) (frame : Frame)
    (packer : BinDecoder) :
    (first >>= next) frame packer = match (first frame packer).ret with
      | none => ⟨none, (first frame packer).seen⟩
      | some (value, packer') =>
        ⟨(next value frame packer').ret,
          (first frame packer).seen ++ (next value frame packer').seen⟩ := rfl

theorem pure_apply {α : Type} (value : α) (frame : Frame) (packer : BinDecoder) :
    (pure value : Unpacker α) frame packer = ⟨some (value, packer), []⟩ := rfl

end Unpacker

end Yarf.Net
