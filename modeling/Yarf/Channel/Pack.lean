/-
**The pack head** (`channel_pack.h`, `channel_pack.cc`).

A message lies in the ring behind a `ChannelPackHead` of `48` bytes. The struct is modelled field by
field with the field widths of the source, and `toBytes` / `read` are its layout in memory: offsets
`0, 2, 4, 6, 8, 10` for the six 16-bit fields, `12` for `seq`, `16` for `time_stamp`, `24` for
`reserve`.

`read_write`: a head written to memory is read back as it was.
-/

import Yarf.Lib.Bytes
import Mathlib.Data.Vector.Basic

namespace Yarf.Channel

open Lib

def kChannelAlignLevel : UInt32 := 8

def kChannelCmdTransfer : UInt16 := 1
def kChannelCmdPlaceHolder : UInt16 := 2

/-- The `reserve` field: six words no code reads. -/
abbrev Reserve := Vector UInt8 24

/-- The pack head. -/
structure ChannelPackHead where
  version : UInt16
  headLen : UInt16
  bodyLen : UInt16
  /-- The body length after rounding up to the alignment level. -/
  alignBodyLen : UInt16
  cmd : UInt16
  checksum : UInt16
  seq : UInt32
  timeStamp : UInt64
  reserve : Reserve
  deriving DecidableEq

/-- `sizeof(ChannelPackHead)`. -/
def kPackHeadSize : UInt32 := 48

namespace ChannelPackHead

/-- The constructor. It leaves `reserve` as it finds it. -/
def new (curCmd : UInt16) (reserve : Reserve) : ChannelPackHead where
  version := 0
  headLen := 48
  bodyLen := 0
  alignBodyLen := 0
  cmd := curCmd
  checksum := 0
  seq := 0
  timeStamp := 0
  reserve := reserve

/-- The static place-holder head; static storage starts out zeroed. -/
def placeHoldHead : ChannelPackHead := new kChannelCmdPlaceHolder (Vector.replicate 24 0)

/-- The bytes of a head in memory. -/
def toBytes (head : ChannelPackHead) : List UInt8 :=
  leBytes 2 head.version.toNat ++ leBytes 2 head.headLen.toNat ++ leBytes 2 head.bodyLen.toNat
    ++ leBytes 2 head.alignBodyLen.toNat ++ leBytes 2 head.cmd.toNat
    ++ leBytes 2 head.checksum.toNat ++ leBytes 4 head.seq.toNat ++ leBytes 8 head.timeStamp.toNat
    ++ head.reserve.toList

/-- The head that lies at an offset of the ring. -/
def read (buff : ℕ → UInt8) (offset : ℕ) : ChannelPackHead where
  version := UInt16.ofNat (leNat (load buff (span offset) 2))
  headLen := UInt16.ofNat (leNat (load buff (span (offset + 2)) 2))
  bodyLen := UInt16.ofNat (leNat (load buff (span (offset + 4)) 2))
  alignBodyLen := UInt16.ofNat (leNat (load buff (span (offset + 6)) 2))
  cmd := UInt16.ofNat (leNat (load buff (span (offset + 8)) 2))
  checksum := UInt16.ofNat (leNat (load buff (span (offset + 10)) 2))
  seq := UInt32.ofNat (leNat (load buff (span (offset + 12)) 4))
  timeStamp := UInt64.ofNat (leNat (load buff (span (offset + 16)) 8))
  reserve := Vector.ofFn fun i => buff (offset + 24 + i)

@[simp]
theorem length_toBytes (head : ChannelPackHead) : head.toBytes.length = 48 := by
  simp [toBytes]

/-- Memories that agree on the head's bytes hold the same head. -/
theorem read_congr {buff other : ℕ → UInt8} {offset : ℕ}
    (agree : ∀ i, i < 48 → buff (offset + i) = other (offset + i)) :
    read buff offset = read other offset := by
  have part : ∀ shift count, shift + count ≤ 48 →
      load buff (span (offset + shift)) count = load other (span (offset + shift)) count := by
    intro shift count inside
    refine load_congr fun i bound => ?_
    rw [span_apply, Nat.add_assoc]
    exact agree _ (by omega)
  have reserve : (fun i : Fin 24 => buff (offset + 24 + i.val))
      = fun i : Fin 24 => other (offset + 24 + i.val) := by
    funext i
    rw [Nat.add_assoc]
    exact agree _ (by omega)
  have first := part 0 2 (by omega)
  rw [Nat.add_zero] at first
  simp only [read, first, part 2 2 (by omega), part 4 2 (by omega), part 6 2 (by omega),
    part 8 2 (by omega), part 10 2 (by omega), part 12 4 (by omega), part 16 8 (by omega), reserve]

theorem ofNat_leNat_16 (value : UInt16) : UInt16.ofNat (leNat (leBytes 2 value.toNat)) = value := by
  rw [leNat_leBytes_of_lt value.toNat_lt, UInt16.ofNat_toNat]

theorem ofNat_leNat_32 (value : UInt32) : UInt32.ofNat (leNat (leBytes 4 value.toNat)) = value := by
  rw [leNat_leBytes_of_lt value.toNat_lt, UInt32.ofNat_toNat]

theorem ofNat_leNat_64 (value : UInt64) : UInt64.ofNat (leNat (leBytes 8 value.toNat)) = value := by
  rw [leNat_leBytes_of_lt value.toNat_lt, UInt64.ofNat_toNat]

/-- A memory whose next `48` bytes are a head's bytes holds that head. -/
theorem read_of_load {buff : ℕ → UInt8} {offset : ℕ} {head : ChannelPackHead}
    (bytes : load buff (span offset) 48 = head.toBytes) : read buff offset = head := by
  have part : ∀ shift count, shift + count ≤ 48 →
      load buff (span (offset + shift)) count = (head.toBytes.drop shift).take count := by
    intro shift count inside
    rw [load_span_part buff inside, bytes]
  have first := part 0 2 (by omega)
  rw [Nat.add_zero] at first
  have reserve : Vector.ofFn (fun i : Fin 24 => buff (offset + 24 + i)) = head.reserve := by
    refine Vector.ext fun i bound => ?_
    have inside : 24 + i < (load buff (span offset) 48).length := by
      rw [length_load]
      omega
    have cell : (load buff (span offset) 48)[24 + i] = buff (offset + 24 + i) := by
      rw [getElem_load, span_apply, Nat.add_assoc]
    rw [Vector.getElem_ofFn, ← cell]
    simp only [bytes, toBytes]
    rw [List.getElem_append_right (by simp)]
    simp
  have fields : read buff offset = ⟨head.version, head.headLen, head.bodyLen, head.alignBodyLen,
      head.cmd, head.checksum, head.seq, head.timeStamp, head.reserve⟩ := by
    simp only [read, first, part 2 2 (by omega), part 4 2 (by omega), part 6 2 (by omega),
      part 8 2 (by omega), part 10 2 (by omega), part 12 4 (by omega), part 16 8 (by omega), reserve]
    simp (disch := simp) [toBytes, ofNat_leNat_16, ofNat_leNat_32, ofNat_leNat_64,
      List.drop_append, List.drop_of_length_le]
  exact fields

/-- A head written to memory is read back as it was. -/
theorem read_write (buff : ℕ → UInt8) (offset : ℕ) (head : ChannelPackHead) :
    read (write buff (cells (span offset) head.toBytes)) offset = head := by
  refine read_of_load ?_
  have back := load_write_cells buff (span offset) head.toBytes (span_injOn _ _)
  rwa [length_toBytes] at back

end ChannelPackHead

end Yarf.Channel
