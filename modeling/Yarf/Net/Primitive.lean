/-
**Packing values one by one** (`BinEncoder::Write`, `BinDecoder::Read`).

Every integer type has a `Write` and a `Read` of its own. On a little-endian host `memcpy` leaves the low
byte first; `htons` and `htonl` reverse the bytes, and `htonll` and `ntohll` reverse them half by half.

* `PrimType.bits_hton`, `PrimType.bits_ntoh` — each conversion reverses the bytes of its type;
* `Prim.write_eq`, `Prim.read_wire` — what one `Write` leaves, and that `Read` gets it back;
* `pack_round_trip` — the same for every list of values, with the failures;
* `IntType.toWire_eq` — the generated code's `Write` is the one with its default `hton`.
-/

import Yarf.Net.BinPacker

namespace Yarf.Net

open Lib

/-! ### Conversions of the host -/

/-- `htons` and `ntohs` on a little-endian host. -/
def htons (host : UInt16) : UInt16 := UInt16.ofNat (swapBytes 2 host.toNat)

/-- `htonl` and `ntohl` on a little-endian host. -/
def htonl (host : UInt32) : UInt32 := UInt32.ofNat (swapBytes 4 host.toNat)

/-- `htonll`; `ntohll` has the same body. -/
def htonll (host : UInt64) : UInt64 :=
  let net := (htonl host.toUInt32.toInt32.toUInt32).toUInt64 <<< 32
  net + (htonl (host >>> 32).toUInt32.toInt32.toUInt32).toUInt64

theorem toNat_htons (host : UInt16) : (htons host).toNat = swapBytes 2 host.toNat :=
  UInt16.toNat_ofNat_of_lt' (swapBytes_lt 2 host.toNat)

theorem toNat_htonl (host : UInt32) : (htonl host).toNat = swapBytes 4 host.toNat :=
  UInt32.toNat_ofNat_of_lt' (swapBytes_lt 4 host.toNat)

/-- Each half is reversed, and they change places. -/
theorem toNat_htonll (host : UInt64) : (htonll host).toNat = swapBytes 8 host.toNat := by
  have half : 256 ^ 4 = 2 ^ 32 := rfl
  have low : (htonl host.toUInt32.toInt32.toUInt32).toNat = swapBytes 4 (host.toNat % 2 ^ 32) := by
    rw [UInt32.toUInt32_toInt32, toNat_htonl, UInt64.toNat_toUInt32]
  have high : (htonl (host >>> 32).toUInt32.toInt32.toUInt32).toNat = swapBytes 4 (host.toNat / 2 ^ 32) := by
    have shifted : (host >>> 32).toNat = host.toNat / 2 ^ 32 := by
      rw [UInt64.toNat_shiftRight, Nat.shiftRight_eq_div_pow]
      rfl
    have bound := host.toNat_lt
    rw [UInt32.toUInt32_toInt32, toNat_htonl, UInt64.toNat_toUInt32, shifted, Nat.mod_eq_of_lt (by omega)]
  have split := swapBytes_add 4 host.toNat
  rw [half] at split
  have lowBound := swapBytes_lt 4 (host.toNat % 2 ^ 32)
  have highBound := swapBytes_lt 4 (host.toNat / 2 ^ 32)
  have front : ((htonl host.toUInt32.toInt32.toUInt32).toUInt64 <<< 32).toNat
      = 2 ^ 32 * swapBytes 4 (host.toNat % 2 ^ 32) := by
    rw [UInt64.toNat_shiftLeft, UInt32.toNat_toUInt64, low, Nat.shiftLeft_eq]
    show swapBytes 4 _ * 2 ^ 32 % 2 ^ 64 = _
    omega
  unfold htonll
  dsimp only
  rw [UInt64.toNat_add, front, UInt32.toNat_toUInt64, high, show (8 : ℕ) = 4 + 4 from rfl, split]
  omega

/-! ### The integer types -/

/-- The types `Write` and `Read` are overloaded for. -/
inductive PrimType
  | int8
  | uint8
  | int16
  | uint16
  | int32
  | uint32
  | int64
  | uint64
  deriving DecidableEq

namespace PrimType

/-- `sizeof`. -/
def width : PrimType → ℕ
  | .int8 | .uint8 => 1
  | .int16 | .uint16 => 2
  | .int32 | .uint32 => 4
  | .int64 | .uint64 => 8

def Val : PrimType → Type
  | .int8 => Int8
  | .uint8 => UInt8
  | .int16 => Int16
  | .uint16 => UInt16
  | .int32 => Int32
  | .uint32 => UInt32
  | .int64 => Int64
  | .uint64 => UInt64

/-- The number a value stands for. -/
def toInt : (t : PrimType) → t.Val → ℤ
  | .int8, value => Int8.toInt value
  | .uint8, value => UInt8.toNat value
  | .int16, value => Int16.toInt value
  | .uint16, value => UInt16.toNat value
  | .int32, value => Int32.toInt value
  | .uint32, value => UInt32.toNat value
  | .int64, value => Int64.toInt value
  | .uint64, value => UInt64.toNat value

/-- The bits of a value, read as an unsigned number. -/
def bits : (t : PrimType) → t.Val → ℕ
  | .int8, value => (Int8.toUInt8 value).toNat
  | .uint8, value => UInt8.toNat value
  | .int16, value => (Int16.toUInt16 value).toNat
  | .uint16, value => UInt16.toNat value
  | .int32, value => (Int32.toUInt32 value).toNat
  | .uint32, value => UInt32.toNat value
  | .int64, value => (Int64.toUInt64 value).toNat
  | .uint64, value => UInt64.toNat value

def ofBits : (t : PrimType) → ℕ → t.Val
  | .int8, bits => (UInt8.ofNat bits).toInt8
  | .uint8, bits => UInt8.ofNat bits
  | .int16, bits => (UInt16.ofNat bits).toInt16
  | .uint16, bits => UInt16.ofNat bits
  | .int32, bits => (UInt32.ofNat bits).toInt32
  | .uint32, bits => UInt32.ofNat bits
  | .int64, bits => (UInt64.ofNat bits).toInt64
  | .uint64, bits => UInt64.ofNat bits

/-- `value = htons(value)` and so on, with the conversions to the parameter and back. -/
def hton : (t : PrimType) → t.Val → t.Val
  | .int8, value => value
  | .uint8, value => value
  | .int16, value => (htons (Int16.toUInt16 value)).toInt16
  | .uint16, value => htons value
  | .int32, value => (htonl (Int32.toUInt32 value)).toInt32
  | .uint32, value => htonl value
  | .int64, value => (htonll (Int64.toUInt64 value)).toInt64
  | .uint64, value => htonll value

theorem bits_lt (t : PrimType) (value : t.Val) : t.bits value < 256 ^ t.width := by
  cases t with
  | int8 | uint8 => exact UInt8.toNat_lt _
  | int16 | uint16 => exact UInt16.toNat_lt _
  | int32 | uint32 => exact UInt32.toNat_lt _
  | int64 | uint64 => exact UInt64.toNat_lt _

theorem ofBits_bits (t : PrimType) (value : t.Val) : t.ofBits (t.bits value) = value := by
  cases t with
  | int8 => exact congrArg UInt8.toInt8 UInt8.ofNat_toNat
  | uint8 => exact UInt8.ofNat_toNat
  | int16 => exact congrArg UInt16.toInt16 UInt16.ofNat_toNat
  | uint16 => exact UInt16.ofNat_toNat
  | int32 => exact congrArg UInt32.toInt32 UInt32.ofNat_toNat
  | uint32 => exact UInt32.ofNat_toNat
  | int64 => exact congrArg UInt64.toInt64 UInt64.ofNat_toNat
  | uint64 => exact UInt64.ofNat_toNat

theorem bits_ofBits (t : PrimType) {bits : ℕ} (fits : bits < 256 ^ t.width) : t.bits (t.ofBits bits) = bits := by
  cases t with
  | int8 | uint8 => exact UInt8.toNat_ofNat_of_lt' fits
  | int16 | uint16 => exact UInt16.toNat_ofNat_of_lt' fits
  | int32 | uint32 => exact UInt32.toNat_ofNat_of_lt' fits
  | int64 | uint64 => exact UInt64.toNat_ofNat_of_lt' fits

/-- **Each conversion** reverses the bytes of its type. -/
theorem bits_hton (t : PrimType) (value : t.Val) : t.bits (t.hton value) = swapBytes t.width (t.bits value) := by
  have byte : ∀ bits, bits < 256 ^ 1 → bits = swapBytes 1 bits := fun bits fits => by
    show bits = leNat (leBytes 1 bits)
    rw [leNat_leBytes_of_lt fits]
  cases t with
  | int8 => exact byte _ (UInt8.toNat_lt _)
  | uint8 => exact byte _ (UInt8.toNat_lt _)
  | int16 | uint16 => exact toNat_htons _
  | int32 | uint32 => exact toNat_htonl _
  | int64 | uint64 => exact toNat_htonll _

/-- Twice is not at all. -/
theorem hton_hton (t : PrimType) (value : t.Val) : t.hton (t.hton value) = value := by
  have same : t.bits (t.hton (t.hton value)) = t.bits value := by
    rw [t.bits_hton, t.bits_hton, swapBytes_swapBytes, Nat.mod_eq_of_lt (t.bits_lt value)]
  rw [← t.ofBits_bits (t.hton _), same, t.ofBits_bits]

theorem toNat_eq_emod {width : ℕ} (bits : BitVec width) : bits.toNat = (bits.toInt % 2 ^ width).toNat := by
  have bound := bits.isLt
  have positive : (2 : ℤ) ^ width = (2 ^ width : ℕ) := (Int.natCast_pow 2 width).symm
  rw [BitVec.toInt_eq_toNat_bmod, positive, Int.bmod_emod, ← Int.natCast_emod, Int.toNat_natCast,
    Nat.mod_eq_of_lt bound]

/-- The bits of a signed value are its two's complement. -/
theorem bits_eq (t : PrimType) (value : t.Val) : t.bits value = (t.toInt value % 256 ^ t.width).toNat := by
  have unsigned : ∀ {bits : ℕ}, bits < 256 ^ t.width → bits = ((bits : ℤ) % 256 ^ t.width).toNat := by
    intro bits fits
    have same : (256 : ℤ) ^ t.width = (256 ^ t.width : ℕ) := (Int.natCast_pow 256 t.width).symm
    rw [same, ← Int.natCast_emod, Int.toNat_natCast, Nat.mod_eq_of_lt fits]
  cases t with
  | int8 => exact toNat_eq_emod (Int8.toBitVec value)
  | int16 => exact toNat_eq_emod (Int16.toBitVec value)
  | int32 => exact toNat_eq_emod (Int32.toBitVec value)
  | int64 => exact toNat_eq_emod (Int64.toBitVec value)
  | uint8 => exact unsigned (UInt8.toNat_lt value)
  | uint16 => exact unsigned (UInt16.toNat_lt value)
  | uint32 => exact unsigned (UInt32.toNat_lt value)
  | uint64 => exact unsigned (UInt64.toNat_lt value)

end PrimType

/-! ### One value -/

/-- A value to be packed: an integer with its flag (which the one-byte types do not have), or a block. -/
inductive Prim
  | int (type : PrimType) (value : type.Val) (hton : Bool)
  | block (bytes : List UInt8)

/-- What is asked for in unpacking it. -/
inductive PrimKind
  | int (type : PrimType) (ntoh : Bool)
  | block (len : ℕ)

/-- `Write` of an integer. -/
def writePrim (type : PrimType) (value : type.Val) (hton : Bool) : Packer Unit :=
  Packer.write (leBytes type.width (type.bits (if hton then type.hton value else value)))

/-- `Read` of an integer; `ntohs`, `ntohl` and `ntohll` do what their counterparts do. -/
def readPrim (type : PrimType) (ntoh : Bool) : Unpacker type.Val := do
  let bytes ← Unpacker.read type.width
  let value := type.ofBits (leNat bytes)
  return if ntoh then type.hton value else value

namespace Prim

/-- `Write`. -/
def write : Prim → Packer Unit
  | .int type value hton => writePrim type value hton
  | .block bytes => Packer.write bytes

def kind : Prim → PrimKind
  | .int type _ hton => .int type hton
  | .block bytes => .block bytes.length

/-- What a value is in the buffer: an integer's two's complement, in network order if the flag is on, with
the low byte first if not. -/
def wire : Prim → List UInt8
  | .int type value true => beBytes type.width (type.toInt value % 256 ^ type.width).toNat
  | .int type value false => leBytes type.width (type.toInt value % 256 ^ type.width).toNat
  | .block bytes => bytes

/-- `sizeof(value)`, or the length of a block. -/
def size : Prim → ℕ
  | .int type _ _ => type.width
  | .block bytes => bytes.length

@[simp]
theorem length_wire (item : Prim) : item.wire.length = item.size := by
  match item with
  | .int type value true => exact length_beBytes _ _
  | .int type value false => exact length_leBytes _ _
  | .block bytes => rfl

end Prim

/-- `Read`. -/
def PrimKind.read : PrimKind → Unpacker Prim
  | .int type ntoh => do
    let value ← readPrim type ntoh
    return .int type value ntoh
  | .block len => do
    let bytes ← Unpacker.read len
    return .block bytes

section One

variable {item : Prim} {packer after : BinEncoder}

/-- **One `Write`** puts the bytes of the value into the buffer. -/
theorem Prim.write_eq (item : Prim) : item.write = Packer.write item.wire := by
  match item with
  | .int type value true =>
    show Packer.write (leBytes type.width (type.bits (type.hton value))) = _
    rw [type.bits_hton, leBytes_swapBytes, type.bits_eq]
    rfl
  | .int type value false =>
    show Packer.write (leBytes type.width (type.bits value)) = _
    rw [type.bits_eq]
    rfl
  | .block bytes => rfl

/-- A `Write` that fails changes nothing. -/
theorem Prim.write_none (failed : item.write packer = (none, after)) : after = packer := by
  rw [item.write_eq, Packer.write] at failed
  split at failed
  · exact (Prod.mk.inj failed).2.symm
  · cases failed

/-- It fails where the value does not fit. -/
theorem Prim.write_full (inside : packer.writePos + item.size < 2 ^ 64)
    (full : packer.len < packer.writePos + item.size) : item.write packer = (none, packer) := by
  rw [item.write_eq, Packer.write, item.length_wire, Nat.mod_eq_of_lt inside]
  exact if_pos full

theorem Prim.write_room (inside : packer.writePos + item.size < 2 ^ 64)
    (room : packer.writePos + item.size ≤ packer.len) :
    item.write packer = (some (), { packer with
      writes := packer.writes ++ cells (Packer.here packer) item.wire
      writePos := packer.writePos + item.size }) := by
  rw [item.write_eq, Packer.write, item.length_wire, Nat.mod_eq_of_lt inside]
  exact if_neg (Nat.not_lt.mpr room)

/-- The bytes of an integer, read as the host reads them, are its bits, reversed if the flag was on. -/
theorem readPrim_value (type : PrimType) (value : type.Val) (hton : Bool) :
    (if hton then type.hton (type.ofBits (leNat (Prim.wire (.int type value hton))))
      else type.ofBits (leNat (Prim.wire (.int type value hton)))) = value := by
  have bits := type.bits_eq value
  have fits := type.bits_lt value
  cases hton with
  | true =>
    show type.hton (type.ofBits (leNat (beBytes _ _))) = value
    rw [← bits, ← swapBytes, ← type.bits_hton, type.ofBits_bits, type.hton_hton]
  | false =>
    show type.ofBits (leNat (leBytes _ _)) = value
    rw [← bits, leNat_leBytes_of_lt fits, type.ofBits_bits]

/-- **One `Read`** in front of the bytes of a value gets it back. -/
theorem Prim.read_wire (item : Prim) (frame : Frame) (packer : BinDecoder) (inside : packer.len < 2 ^ 64)
    (room : packer.readPos + item.size ≤ packer.len)
    (here : load frame.memory (span (packer.buffer + packer.readPos)) item.size = item.wire) :
    (item.kind.read frame packer).ret
      = some (item, { packer with readPos := packer.readPos + item.size }) := by
  have read : (Unpacker.read item.size frame packer).ret
      = some (item.wire, { packer with readPos := packer.readPos + item.size }) := by
    unfold Unpacker.read
    rw [Nat.mod_eq_of_lt (by omega), if_neg (by omega), here]
  match item with
  | .int type value hton =>
    show ((readPrim type hton >>= fun value => pure (Prim.int type value hton)) frame packer).ret = _
    unfold readPrim
    rw [Unpacker.bind_apply, Unpacker.bind_apply, show (Unpacker.read type.width frame packer).ret = _ from read]
    show some (Prim.int type (if hton then _ else _) hton, _) = _
    rw [readPrim_value]
  | .block bytes =>
    show ((Unpacker.read bytes.length >>= fun bytes => pure (Prim.block bytes)) frame packer).ret = _
    rw [Unpacker.bind_apply, show (Unpacker.read bytes.length frame packer).ret = _ from read]
    rfl

end One

/-! ### A list of values -/

/-- The values are written one after the other, whether or not a `Write` fails: what each returned. -/
def writeAll : List Prim → BinEncoder → List Bool × BinEncoder
  | [], packer => ([], packer)
  | item :: rest, packer =>
    let (ret, after) := item.write packer
    let (results, last) := writeAll rest after
    (ret.isSome :: results, last)

/-- The values whose `Write` succeeded. -/
def written : List Prim → List Bool → List Prim
  | item :: items, true :: results => item :: written items results
  | _ :: items, false :: results => written items results
  | _, _ => []

/-- The values are read one after the other. -/
def readAll : List PrimKind → Unpacker (List Prim)
  | [] => pure []
  | kind :: rest => do
    let item ← kind.read
    let items ← readAll rest
    return item :: items

def totalSize : List Prim → ℕ
  | [] => 0
  | item :: items => item.size + totalSize items

@[simp]
theorem totalSize_cons (item : Prim) (items : List Prim) :
    totalSize (item :: items) = item.size + totalSize items := rfl

theorem length_flatMap_wire (items : List Prim) : (items.flatMap Prim.wire).length = totalSize items := by
  induction items with
  | nil => rfl
  | cons item items ih => simp [ih]

/-- What writing the values into `len` bytes at `data` has done. -/
structure Packed (items : List Prim) (data : ℤ) (len : ℕ) (memory : ℤ → UInt8) (results : List Bool)
    (after : BinEncoder) : Prop where
  /-- It succeeds up to exactly the first value that does not fit. -/
  first : ∀ k ≤ items.length, (∀ done ∈ results.take k, done = true) ↔ totalSize (items.take k) ≤ len
  /-- The values written are in the buffer, one behind the other. -/
  pos : after.writePos = totalSize (written items results) ∧ after.writePos ≤ len
  image : load (write memory after.writes) (fun i => data + i) after.writePos
    = (written items results).flatMap Prim.wire
  /-- Nothing else has changed. -/
  frame : ∀ place, place < data ∨ data + after.writePos ≤ place →
    write memory after.writes place = memory place
  /-- Reading them from there gets the same values and ends at the same position. -/
  reads : ∀ (frame : Frame) (len' : ℕ), (∀ i : ℕ, frame.memory i = write memory after.writes (data + i)) →
    after.writePos ≤ len' → len' < 2 ^ 64 →
    (readAll ((written items results).map Prim.kind) frame ⟨0, 0, len'⟩).ret
      = some (written items results, ⟨after.writePos, 0, len'⟩)

section All

variable {item : Prim} {items : List Prim} {packer after : BinEncoder}

theorem writeAll_none (failed : item.write packer = (none, after)) : writeAll (item :: items) packer
    = (false :: (writeAll items after).1, (writeAll items after).2) := by
  rw [writeAll, failed]
  rfl

theorem writeAll_some (done : item.write packer = (some (), after)) : writeAll (item :: items) packer
    = (true :: (writeAll items after).1, (writeAll items after).2) := by
  rw [writeAll, done]
  rfl

/-- The results, up to the first failure. -/
theorem writeAll_first (items : List Prim) (packer : BinEncoder) (within : packer.writePos ≤ packer.len)
    (total : packer.writePos + totalSize items < 2 ^ 64) {k : ℕ} (inside : k ≤ items.length) :
    (∀ done ∈ (writeAll items packer).1.take k, done = true) ↔
      packer.writePos + totalSize (items.take k) ≤ packer.len := by
  induction items generalizing packer k with
  | nil => simpa [writeAll, totalSize] using within
  | cons item rest ih =>
    rw [totalSize_cons] at total
    cases k with
    | zero => simpa [totalSize] using within
    | succ k =>
      have inside : k ≤ rest.length := Nat.le_of_succ_le_succ inside
      rw [List.take_succ_cons, totalSize_cons]
      rcases Nat.lt_or_ge packer.len (packer.writePos + item.size) with full | room
      · rw [writeAll_none (Prim.write_full (by omega) full)]
        simp
        omega
      · rw [writeAll_some (Prim.write_room (by omega) room)]
        have later := ih { packer with
          writes := packer.writes ++ cells (Packer.here packer) item.wire
          writePos := packer.writePos + item.size } room (by dsimp only; omega) inside
        dsimp only at later ⊢
        rw [List.take_succ_cons, List.forall_mem_cons, later, Nat.add_assoc]
        simp

/-- **What has been written** lies behind the position, in order. -/
theorem writeAll_spells (items : List Prim) (packer : BinEncoder) (within : packer.writePos ≤ packer.len)
    (total : packer.writePos + totalSize items < 2 ^ 64) :
    packer.writePos + totalSize (written items (writeAll items packer).1) ≤ packer.len ∧ ∃ new,
      (writeAll items packer).2 = { packer with
        writePos := packer.writePos + totalSize (written items (writeAll items packer).1)
        writes := packer.writes ++ new } ∧
      Spells (Packer.here packer) new ((written items (writeAll items packer).1).flatMap Prim.wire) := by
  induction items generalizing packer with
  | nil => exact ⟨within, [], by simp [writeAll, written, totalSize], spells_nil _⟩
  | cons item rest ih =>
    rw [totalSize_cons] at total
    rcases Nat.lt_or_ge packer.len (packer.writePos + item.size) with full | room
    · rw [writeAll_none (Prim.write_full (by omega) full)]
      exact ih packer within (by omega)
    · rw [writeAll_some (Prim.write_room (by omega) room)]
      have moved : Packer.here { packer with
          writes := packer.writes ++ cells (Packer.here packer) item.wire
          writePos := packer.writePos + item.size } = fun i => Packer.here packer (item.wire.length + i) :=
        here_add rfl (by rw [item.length_wire])
      obtain ⟨inside, new, same, spells⟩ := ih { packer with
        writes := packer.writes ++ cells (Packer.here packer) item.wire
        writePos := packer.writePos + item.size } room (by dsimp only; omega)
      rw [moved] at spells
      generalize writeAll rest { packer with
        writes := packer.writes ++ cells (Packer.here packer) item.wire
        writePos := packer.writePos + item.size } = outcome at inside same spells ⊢
      show packer.writePos + totalSize (item :: written rest outcome.1) ≤ packer.len ∧ _
      rw [totalSize_cons, ← Nat.add_assoc]
      refine ⟨inside, cells (Packer.here packer) item.wire ++ new, ?_, ?_⟩
      · show outcome.2 = { packer with
          writePos := packer.writePos + totalSize (item :: written rest outcome.1)
          writes := packer.writes ++ (cells (Packer.here packer) item.wire ++ new) }
        rw [same, totalSize_cons]
        simp only [Nat.add_assoc, List.append_assoc]
      · exact (spells_cells (here_injective packer) item.wire).append (here_injective packer) spells

/-- **Reading in front of the bytes of a list of values** gets them back. -/
theorem readAll_wire (items : List Prim) (frame : Frame) (packer : BinDecoder) (inside : packer.len < 2 ^ 64)
    (room : packer.readPos + totalSize items ≤ packer.len)
    (here : load frame.memory (span (packer.buffer + packer.readPos)) (totalSize items)
      = items.flatMap Prim.wire) :
    (readAll (items.map Prim.kind) frame packer).ret
      = some (items, { packer with readPos := packer.readPos + totalSize items }) := by
  induction items generalizing packer with
  | nil => rfl
  | cons item rest ih =>
    rw [totalSize_cons] at room here
    rw [load_add, span_add, List.flatMap_cons] at here
    obtain ⟨front, back⟩ := List.append_inj here (by rw [length_load, item.length_wire])
    rw [Nat.add_assoc] at back
    rw [List.map_cons, readAll, Unpacker.bind_apply, item.read_wire frame packer inside (by omega) front]
    dsimp only
    rw [Unpacker.bind_apply, ih { packer with readPos := packer.readPos + item.size } inside
      (by dsimp only; omega) back, totalSize_cons]
    simp only [Nat.add_assoc]
    rfl

end All

/-- **The round trip of single values.** On a little-endian host, for every list of integers and blocks whose
sizes add up below `2 ^ 64`, every flag and every length of the buffer: the values are written in order up
to exactly the first that does not fit, and lie in the buffer one behind the other, integers in network
order where the flag is on; reading them back with the same types and flags gets the same values and ends
at the same position. A `Write` that fails changes nothing. -/
theorem pack_round_trip (items : List Prim) (data : ℤ) (len : ℕ) (memory : ℤ → UInt8)
    (total : totalSize items < 2 ^ 64) :
    Packed items data len memory (writeAll items ⟨0, data, len, []⟩).1
      (writeAll items ⟨0, data, len, []⟩).2 ∧
    ∀ (item : Prim) (packer after : BinEncoder), item.write packer = (none, after) → after = packer := by
  refine ⟨?_, fun item packer after failed => item.write_none failed⟩
  have sum : (⟨0, data, len, []⟩ : BinEncoder).writePos + totalSize items < 2 ^ 64 := by
    rwa [Nat.zero_add]
  obtain ⟨inside, new, same, spells⟩ := writeAll_spells items ⟨0, data, len, []⟩ (Nat.zero_le _) sum
  have first := fun k inside => @writeAll_first items ⟨0, data, len, []⟩ (Nat.zero_le _) sum k inside
  generalize writeAll items ⟨0, data, len, []⟩ = outcome at inside same spells first
  have front : Packer.here ⟨0, data, len, []⟩ = fun i : ℕ => data + i := by
    funext i
    unfold Packer.here
    push_cast
    omega
  rw [front] at spells
  have pos : outcome.2.writePos = totalSize (written items outcome.1) := by
    rw [same]
    exact Nat.zero_add _
  have writes : outcome.2.writes = new := by
    rw [same]
    rfl
  have length := length_flatMap_wire (written items outcome.1)
  have image := spells.reads memory
  rw [length, ← pos] at image
  refine ⟨fun k inside => ?_, ⟨pos, ?_⟩, ?_, fun place outside => ?_, fun frame len' agree room small => ?_⟩
  · simpa using first k inside
  · rw [pos]
    simpa using inside
  · rw [writes]
    exact image
  · rw [writes]
    refine write_apply_of_forall_ne _ _ _ fun entry member => ?_
    obtain ⟨i, bound, here⟩ := spells.inside entry member
    rw [here]
    rw [length, ← pos] at bound
    omega
  · have here : load frame.memory (span (0 + 0)) (totalSize (written items outcome.1))
        = (written items outcome.1).flatMap Prim.wire := by
      rw [← image, ← pos]
      refine List.map_congr_left fun i _ => ?_
      rw [span_apply, Nat.zero_add, agree, writes]
    have read := readAll_wire (written items outcome.1) frame ⟨0, 0, len'⟩ small
      (by dsimp only; omega) here
    rw [read, pos]
    simp

/-- A signed integer in network order, an unsigned one as the host has it, and a block that does not fit. -/
def threeItems : List Prim := [.int .int16 (-2 : Int16) true, .int .uint64 (5 : UInt64) false, .block [7, 8]]

theorem pack_round_trip_three :
    Packed threeItems 0 11 (fun _ => 0) (writeAll threeItems ⟨0, 0, 11, []⟩).1
      (writeAll threeItems ⟨0, 0, 11, []⟩).2 ∧
    ∀ (item : Prim) (packer after : BinEncoder), item.write packer = (none, after) → after = packer :=
  pack_round_trip threeItems 0 11 (fun _ => 0) (by decide)

/-! ### The integers of the generated code -/

/-- An integer type of the generated fields among those of the packer. -/
def IntType.prim : IntType → PrimType
  | .int32 => .int32
  | .uint32 => .uint32
  | .int64 => .int64
  | .uint64 => .uint64

theorem IntType.prim_val (t : IntType) : t.prim.Val = t.Val := by
  cases t <;> rfl

/-- What the generated code's `Write` leaves is what `Write` leaves with the default of its flag. -/
theorem IntType.toWire_eq (t : IntType) (value : t.prim.Val) :
    t.toWire (cast t.prim_val value) = Prim.wire (.int t.prim value true) := by
  have bits := t.prim.bits_eq value
  cases t with
  | int32 | uint32 | int64 | uint64 => exact congrArg (beBytes _) bits

end Yarf.Net
