/-
**The size checks of the packer** (`SkipWritePos`, `Write`, `SkipReadPos` and both `Read`s with a length).

The five calls compare the position plus the length, a sum of `size_t`, with the length of the buffer. A sum that
wraps is below the position, and passes.

* `call_spec` — every call takes the one step `advance`;
* `Packers.Inside.step` — the position stays in the buffer;
* `size_checks_iff` — which sequences of calls are checked exactly.
-/

import Yarf.Lib.Machine
import Yarf.Net.BinPacker

namespace Yarf.Net

open Lib

/-! ### The program -/

namespace BinDecoder

/-- `SkipReadPos` -/
def skipReadPos (len : ℕ) (decoder : BinDecoder) : Bool × BinDecoder :=
  if decoder.len < (decoder.readPos + len) % 2 ^ 64 then (false, decoder)
  else (true, { decoder with readPos := (decoder.readPos + len) % 2 ^ 64 })

/-- `Read(void*, size_t)`: the bytes copied -/
def read (memory : ℕ → UInt8) (len : ℕ) (decoder : BinDecoder) : Option (List UInt8) × BinDecoder :=
  if decoder.len < (decoder.readPos + len) % 2 ^ 64 then (none, decoder)
  else (some (load memory (span (decoder.buffer + decoder.readPos)) len),
    { decoder with readPos := (decoder.readPos + len) % 2 ^ 64 })

/-- `Read(const void**, size_t)`: the pointer -/
def readPointer (len : ℕ) (decoder : BinDecoder) : Option ℕ × BinDecoder :=
  if decoder.len < (decoder.readPos + len) % 2 ^ 64 then (none, decoder)
  else (some (decoder.buffer + decoder.readPos), { decoder with readPos := (decoder.readPos + len) % 2 ^ 64 })

end BinDecoder

/-- The same reads in a piece of decoding, which is over when one fails. -/
theorem read_ret (len : ℕ) (frame : Frame) (decoder : BinDecoder) : (Unpacker.read len frame decoder).ret
    = (decoder.read frame.memory len).1.map fun bytes => (bytes, (decoder.read frame.memory len).2) := by
  unfold Unpacker.read BinDecoder.read
  split_ifs <;> rfl

theorem skipReadPos_ret (len : ℕ) (frame : Frame) (decoder : BinDecoder) :
    (Unpacker.skipReadPos len frame decoder).ret
      = if (decoder.skipReadPos len).1 then some ((), (decoder.skipReadPos len).2) else none := by
  unfold Unpacker.skipReadPos BinDecoder.skipReadPos
  by_cases beyond : decoder.len < (decoder.readPos + len) % 2 ^ 64
  · rw [if_pos beyond, if_pos beyond]
    rfl
  · rw [if_neg beyond, if_neg beyond]
    rfl

/-! ### Sequences of calls -/

structure Packers where
  encoder : BinEncoder
  decoder : BinDecoder

inductive PackCall
  | skipWritePos (len : ℕ)
  | write (value : List UInt8)
  | skipReadPos (len : ℕ)
  | read (len : ℕ)
  | readPointer (len : ℕ)

/-- The length a call asks for. -/
def PackCall.size : PackCall → ℕ
  | .skipWritePos len | .skipReadPos len | .read len | .readPointer len => len
  | .write value => value.length

namespace Packers

/-- What a call returns and leaves. -/
def call (memory : ℕ → UInt8) (packers : Packers) : PackCall → Bool × Packers
  | .skipWritePos len => ((Packer.skipWritePos len packers.encoder).1.isSome,
      { packers with encoder := (Packer.skipWritePos len packers.encoder).2 })
  | .write value => ((Packer.write value packers.encoder).1.isSome,
      { packers with encoder := (Packer.write value packers.encoder).2 })
  | .skipReadPos len => ((packers.decoder.skipReadPos len).1,
      { packers with decoder := (packers.decoder.skipReadPos len).2 })
  | .read len => ((packers.decoder.read memory len).1.isSome,
      { packers with decoder := (packers.decoder.read memory len).2 })
  | .readPointer len => ((packers.decoder.readPointer len).1.isSome,
      { packers with decoder := (packers.decoder.readPointer len).2 })

/-- `write_pos_` or `read_pos_`, as the call has it. -/
def pos (packers : Packers) : PackCall → ℕ
  | .skipWritePos _ | .write _ => packers.encoder.writePos
  | .skipReadPos _ | .read _ | .readPointer _ => packers.decoder.readPos

/-- `len_`, likewise. -/
def len (packers : Packers) : PackCall → ℕ
  | .skipWritePos _ | .write _ => packers.encoder.len
  | .skipReadPos _ | .read _ | .readPointer _ => packers.decoder.len

/-- The positions are in the buffers, whose lengths are machine words. -/
structure Inside (packers : Packers) : Prop where
  encoder : packers.encoder.writePos ≤ packers.encoder.len
  encoderLen : packers.encoder.len < 2 ^ 64
  decoder : packers.decoder.readPos ≤ packers.decoder.len
  decoderLen : packers.decoder.len < 2 ^ 64

end Packers

/-- Calls with any lengths that are machine words. -/
def packMachine (memory : ℕ → UInt8) (start : Packers) : Machine Packers PackCall where
  init := (· = start)
  step packers call next := call.size < 2 ^ 64 ∧ next = (packers.call memory call).2

/-- **What a call owes.** -/
structure CallExact (memory : ℕ → UInt8) (packers : Packers) (call : PackCall) : Prop where
  returns : (packers.call memory call).1 = true ↔ packers.pos call + call.size ≤ packers.len call
  moves : (packers.call memory call).1 = true →
    (packers.call memory call).2.pos call = packers.pos call + call.size ∧
      (packers.call memory call).2.pos call ≤ (packers.call memory call).2.len call
  stays : (packers.call memory call).1 = false → (packers.call memory call).2 = packers

/-! ### One call -/

/-- The step the five calls share. -/
def advance (len pos size : ℕ) : Bool × ℕ :=
  if len < (pos + size) % 2 ^ 64 then (false, pos) else (true, (pos + size) % 2 ^ 64)

section Calls

variable {memory : ℕ → UInt8} {packers : Packers} {len pos size : ℕ}

/-- A call whose sum is beyond the buffer changes nothing. -/
theorem call_of_beyond (memory : ℕ → UInt8) {call : PackCall}
    (beyond : packers.len call < (packers.pos call + call.size) % 2 ^ 64) :
    packers.call memory call = (false, packers) := by
  cases call with
  | skipWritePos len =>
    have failed : Packer.skipWritePos len packers.encoder = (none, packers.encoder) := if_pos beyond
    rw [Packers.call, failed]
    rfl
  | write value =>
    have failed : Packer.write value packers.encoder = (none, packers.encoder) := if_pos beyond
    rw [Packers.call, failed]
    rfl
  | skipReadPos len =>
    have failed : packers.decoder.skipReadPos len = (false, packers.decoder) := if_pos beyond
    rw [Packers.call, failed]
  | read len =>
    have failed : packers.decoder.read memory len = (none, packers.decoder) := if_pos beyond
    rw [Packers.call, failed]
    rfl
  | readPointer len =>
    have failed : packers.decoder.readPointer len = (none, packers.decoder) := if_pos beyond
    rw [Packers.call, failed]
    rfl

/-- Any other moves its position there. -/
theorem call_of_within (memory : ℕ → UInt8) {call : PackCall}
    (within : ¬packers.len call < (packers.pos call + call.size) % 2 ^ 64) :
    (packers.call memory call).1 = true ∧
      (packers.call memory call).2.pos call = (packers.pos call + call.size) % 2 ^ 64 ∧
      (packers.call memory call).2.len call = packers.len call := by
  cases call with
  | skipWritePos len =>
    have moved : Packer.skipWritePos len packers.encoder = (some (), _) := if_neg within
    rw [Packers.call, moved]
    exact ⟨rfl, rfl, rfl⟩
  | write value =>
    have moved : Packer.write value packers.encoder = (some (), _) := if_neg within
    rw [Packers.call, moved]
    exact ⟨rfl, rfl, rfl⟩
  | skipReadPos len =>
    have moved : packers.decoder.skipReadPos len = (true, _) := if_neg within
    rw [Packers.call, moved]
    exact ⟨rfl, rfl, rfl⟩
  | read len =>
    have moved : packers.decoder.read memory len = (some _, _) := if_neg within
    rw [Packers.call, moved]
    exact ⟨rfl, rfl, rfl⟩
  | readPointer len =>
    have moved : packers.decoder.readPointer len = (some _, _) := if_neg within
    rw [Packers.call, moved]
    exact ⟨rfl, rfl, rfl⟩

/-- **Every call takes that step**, changes nothing else that counts, and nothing at all when it fails. -/
theorem call_spec (memory : ℕ → UInt8) (packers : Packers) (call : PackCall) :
    (packers.call memory call).1 = (advance (packers.len call) (packers.pos call) call.size).1 ∧
      (packers.call memory call).2.pos call = (advance (packers.len call) (packers.pos call) call.size).2 ∧
      (packers.call memory call).2.len call = packers.len call ∧
      ((packers.call memory call).1 = false → (packers.call memory call).2 = packers) := by
  unfold advance
  split_ifs with beyond
  · rw [call_of_beyond memory beyond]
    exact ⟨rfl, rfl, rfl, fun _ => rfl⟩
  · obtain ⟨ret, pos, len⟩ := call_of_within memory beyond
    refine ⟨ret, pos, len, fun failed => ?_⟩
    rw [ret] at failed
    cases failed

/-- The position stays in the buffer, whatever the length. -/
theorem advance_le (inside : pos ≤ len) (size : ℕ) : (advance len pos size).2 ≤ len := by
  unfold advance
  split_ifs with beyond
  · exact inside
  · exact Nat.not_lt.mp beyond

/-- A sum that does not wrap is compared as it should be. -/
theorem advance_of_lt (small : pos + size < 2 ^ 64) :
    advance len pos size = if len < pos + size then (false, pos) else (true, pos + size) := by
  unfold advance
  rw [Nat.mod_eq_of_lt small]

/-- A sum that wraps passes, and the position goes back. -/
theorem advance_of_le (inside : pos ≤ len) (fits : len < 2 ^ 64) (word : size < 2 ^ 64)
    (wraps : 2 ^ 64 ≤ pos + size) : advance len pos size = (true, pos + size - 2 ^ 64) := by
  have below : (pos + size) % 2 ^ 64 = pos + size - 2 ^ 64 := by
    rw [Nat.mod_eq_sub_mod wraps]
    exact Nat.mod_eq_of_lt (by omega)
  unfold advance
  rw [below]
  exact if_neg (by omega)

theorem Packers.Inside.call (inside : packers.Inside) (call : PackCall) :
    packers.pos call ≤ packers.len call ∧ packers.len call < 2 ^ 64 := by
  cases call with
  | skipWritePos len => exact ⟨inside.encoder, inside.encoderLen⟩
  | write value => exact ⟨inside.encoder, inside.encoderLen⟩
  | skipReadPos len => exact ⟨inside.decoder, inside.decoderLen⟩
  | read len => exact ⟨inside.decoder, inside.decoderLen⟩
  | readPointer len => exact ⟨inside.decoder, inside.decoderLen⟩

/-- **The position stays in the buffer**, exactly checked or not. -/
theorem Packers.Inside.step (inside : packers.Inside) (call : PackCall) :
    (packers.call memory call).2.Inside := by
  obtain ⟨-, pos, len, -⟩ := call_spec memory packers call
  have below := advance_le (inside.call call).1 call.size
  rw [← pos, ← len] at below
  have fits := (inside.call call).2
  rw [← len] at fits
  cases call with
  | skipWritePos len => exact ⟨below, fits, inside.decoder, inside.decoderLen⟩
  | write value => exact ⟨below, fits, inside.decoder, inside.decoderLen⟩
  | skipReadPos len => exact ⟨inside.encoder, inside.encoderLen, below, fits⟩
  | read len => exact ⟨inside.encoder, inside.encoderLen, below, fits⟩
  | readPointer len => exact ⟨inside.encoder, inside.encoderLen, below, fits⟩

/-- **A call is checked exactly** when its sum does not wrap. -/
theorem callExact_iff (inside : packers.Inside) {call : PackCall} (word : call.size < 2 ^ 64) :
    CallExact memory packers call ↔ packers.pos call + call.size < 2 ^ 64 := by
  obtain ⟨ret, pos, len, stays⟩ := call_spec memory packers call
  obtain ⟨below, fits⟩ := inside.call call
  constructor
  · intro exact
    by_contra wraps
    have passes := advance_of_le below fits word (Nat.not_lt.mp wraps)
    have moved := (exact.moves (by rw [ret, passes])).1
    rw [pos, passes] at moved
    have : 0 < 2 ^ 64 := by decide
    dsimp only at moved
    omega
  · intro small
    rw [advance_of_lt small] at ret pos
    by_cases beyond : packers.len call < packers.pos call + call.size
    · rw [if_pos beyond] at ret
      refine ⟨?_, fun passed => ?_, stays⟩
      · rw [ret]
        exact iff_of_false nofun (Nat.not_le.mpr beyond)
      · rw [ret] at passed
        cases passed
    · rw [if_neg beyond] at ret pos
      have within := Nat.not_lt.mp beyond
      refine ⟨?_, fun _ => ⟨pos, ?_⟩, stays⟩
      · rw [ret]
        exact iff_of_true rfl within
      · rw [pos, len]
        exact within

end Calls

/-- **The size checks.** In every sequence of calls the positions stay in the buffers; all its checks are exact
when no sum of a position and a length wraps, and only then. -/
theorem size_checks_iff (memory : ℕ → UInt8) (start : Packers) (inside : start.Inside)
    (steps : List (Machine.Step Packers PackCall)) (last : Packers)
    (run : (packMachine memory start).traced.Run start steps last) :
    last.Inside ∧ ((∀ taken ∈ steps, CallExact memory taken.before taken.label) ↔
      ∀ taken ∈ steps, taken.before.pos taken.label + taken.label.size < 2 ^ 64) := by
  have keep : ∀ taken : Machine.Step Packers PackCall, taken.before.Inside →
      (packMachine memory start).step taken.before taken.label taken.after → taken.after.Inside := by
    rintro taken inside ⟨-, same⟩
    rw [same]
    exact inside.step taken.label
  constructor
  · exact Machine.traced_run (fun taken inside step (_ : True) => keep taken inside step) inside run
      fun _ _ => trivial
  · exact Machine.traced_iff (fun taken inside step _ => keep taken inside step)
      (fun taken inside step => callExact_iff inside step.1) inside run

/-- Two packers on ten bytes, the decoder behind the fourth. -/
def tenBytes : Packers := ⟨⟨0, 0, 10, []⟩, ⟨4, 0, 10⟩⟩

theorem tenBytes_inside : tenBytes.Inside := ⟨by decide, by decide, by decide, by decide⟩

/-- Six bytes more can be read, a seventh cannot. -/
theorem size_checks_iff_seven : (tenBytes.decoder.read (fun _ => 0) 7).2 = tenBytes.decoder := by
  have run : (packMachine (fun _ => 0) tenBytes).traced.Run tenBytes ([] ++ [⟨tenBytes, .read 7, _⟩]) _ :=
    .snoc (.nil _) ⟨rfl, rfl, by decide, rfl⟩
  have all := (size_checks_iff _ _ tenBytes_inside _ _ run).2.mpr fun taken member => by
    rw [List.mem_singleton.mp member]
    decide
  exact congrArg Packers.decoder ((all _ List.mem_cons_self).stays (by decide))

/-- A length of minus one, as a `size_t`, passes and moves the position back. -/
theorem size_checks_fail_minus : tenBytes.Inside ∧
    tenBytes.decoder.skipReadPos (toSize (-1)) = (true, ⟨3, 0, 10⟩) ∧
    ¬CallExact (fun _ => 0) tenBytes (.skipReadPos (toSize (-1))) := by
  have moved : tenBytes.decoder.skipReadPos (toSize (-1)) = (true, ⟨(4 + toSize (-1)) % 2 ^ 64, 0, 10⟩) :=
    if_neg (by decide)
  have three : (4 + toSize (-1)) % 2 ^ 64 = 3 := by decide
  rw [three] at moved
  refine ⟨tenBytes_inside, moved, fun exact => ?_⟩
  exact absurd ((callExact_iff tenBytes_inside (by decide)).mp exact) (by decide)

end Yarf.Net
