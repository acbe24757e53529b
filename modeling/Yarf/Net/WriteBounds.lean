/-
**What the encoder writes.**

A nested message is encoded four bytes ahead of the packer, before anything tests that its length fits in
front of it. With fewer than four bytes left its `len` is negative, its packer takes that for a size no
buffer has, and what it writes lies behind the buffer (`Schema.Overruns`). The elements of a repeated
message behind the first are neither written nor tested (`Schema.Checked`, `Schema.image`).

* `Schema.starts` — what a message writes whose `len` is no length;
* `Schema.runs` — when `Encode` returns true, and whether all it writes lies in the buffer;
* `encode_correct_iff` puts both together.
-/

import Yarf.Net.ReadBounds
import Yarf.Net.RoundTrip

namespace Yarf.Net

open Lib

/-! ### What is asked of the encoder -/

mutual

/-- The sizes `Encode` compares with their `MAX`. -/
def Field.Checked : (field : Field) → field.Val → Prop
  | .simple _, _ => True
  | .string max, bytes => List.length bytes ≤ max.toNat
  | .struct message, value => message.Checked value
  | .simpleVec _ max, values => List.length values ≤ max.toNat
  | .structVec message max, values =>
    List.length values ≤ max.toNat ∧ List.Forall message.Checked (List.take 1 values)

def Schema.Checked : (schema : Schema) → schema.Val → Prop
  | .nil, _ => True
  | .cons field rest, (value, values) => field.Checked value ∧ rest.Checked values

end

mutual

/-- A field at the front of a message whose `len` need not be a length writes a byte before a check
refuses. -/
def Field.Begins : (field : Field) → field.Val → ℤ → Prop
  | .simple type, _, len => type.width ≤ toSize len
  | .string max, bytes, len => List.length bytes ≤ max.toNat ∧ 4 ≤ toSize len
  | .struct message, value, len =>
    message.Begins value ((len - 4).bmod (2 ^ 32)) ∨ message = .nil ∧ 4 ≤ toSize len
  | .simpleVec _ max, values, len | .structVec _ max, values, len =>
    List.length values ≤ max.toNat ∧ 4 ≤ toSize len

def Schema.Begins : (schema : Schema) → schema.Val → ℤ → Prop
  | .nil, _, _ => False
  | .cons field _, (value, _), len => field.Begins value len

end

/-- A nested message for which `left` bytes are left, its length included. -/
def overrunsNested (overruns : ℕ → Prop) (begins : ℤ → Prop) (left : ℕ) : Prop :=
  if 4 ≤ left then overruns (left - 4) else begins (left - 4)

mutual

/-- With `left` bytes left, a nested message that writes something is reached where fewer than four are
left. -/
def Field.Overruns : (field : Field) → field.Val → ℕ → Prop
  | .simple _, _, _ | .string _, _, _ | .simpleVec _ _, _, _ => False
  | .struct message, value, left =>
    overrunsNested (message.Overruns value) (message.Begins value) left
  | .structVec message max, values, left => List.length values ≤ max.toNat ∧ 4 ≤ left ∧
    ∃ value ∈ List.take 1 values,
      overrunsNested (message.Overruns value) (message.Begins value) (left - 4)

def Schema.Overruns : (schema : Schema) → schema.Val → ℕ → Prop
  | .nil, _, _ => False
  | .cons field rest, (value, values), left => field.Overruns value left ∨
    field.Checked value ∧ (field.image value).length ≤ left ∧
      rest.Overruns values (left - (field.image value).length)

end

/-- **`Encode(data, len)` is safe and complete**: it writes to the `len` bytes at `data` only, and returns
true exactly when the value with all its elements fits and every size is within its `MAX`. -/
def EncodesSafely (schema : Schema) (value : schema.Val) (data : ℤ) (len : ℕ) : Prop :=
  (∀ entry ∈ (schema.encode value data len []).2, data ≤ entry.1 ∧ entry.1 < data + len) ∧
    ((schema.encode value data len []).1.isSome ↔ schema.wireSize value ≤ len ∧ schema.Fits value)

/-! ### Writes -/

section Writes

variable {lo lo' hi : ℤ} {before middle after : List (ℤ × UInt8)} {exact exact' overruns overruns' : Prop}

/-- What is written from `before` to `after` lies in `[lo, hi)`, unless something overruns `hi`; then, if
`exact`, something lies behind `hi`. -/
def Stays (lo hi : ℤ) (exact : Prop) (before after : List (ℤ × UInt8)) (overruns : Prop) : Prop :=
  ∃ new, after = before ++ new ∧ (exact → overruns → ∃ entry ∈ new, hi ≤ entry.1) ∧
    (¬ overruns → ∀ entry ∈ new, lo ≤ entry.1 ∧ entry.1 < hi)

theorem stays_refl (lo hi : ℤ) (exact : Prop) (before : List (ℤ × UInt8)) :
    Stays lo hi exact before before False := by
  refine ⟨[], (List.append_nil _).symm, fun _ => False.elim, fun _ entry member => ?_⟩
  cases member

theorem Stays.trans (stays : Stays lo hi exact before middle overruns)
    (later : Stays lo hi exact middle after overruns') :
    Stays lo hi exact before after (overruns ∨ overruns') := by
  obtain ⟨new, rfl, beyond, inside⟩ := stays
  obtain ⟨new', rfl, beyond', inside'⟩ := later
  refine ⟨new ++ new', List.append_assoc _ _ _, fun holds either => ?_, fun neither entry member => ?_⟩
  · rcases either with first | second
    · obtain ⟨entry, member, behind⟩ := beyond holds first
      exact ⟨entry, List.mem_append_left _ member, behind⟩
    · obtain ⟨entry, member, behind⟩ := beyond' holds second
      exact ⟨entry, List.mem_append_right _ member, behind⟩
  · obtain ⟨first, second⟩ := not_or.mp neither
    exact (List.mem_append.mp member).elim (inside first entry) (inside' second entry)

theorem Stays.mono (stays : Stays lo' hi exact' before after overruns) (wider : lo ≤ lo')
    (holds : exact → exact') : Stays lo hi exact before after overruns := by
  obtain ⟨new, same, beyond, inside⟩ := stays
  refine ⟨new, same, fun known => beyond (holds known), fun none entry member => ?_⟩
  obtain ⟨above, below⟩ := inside none entry member
  exact ⟨wider.trans above, below⟩

theorem Stays.congr (stays : Stays lo hi exact before after overruns) (same : overruns ↔ overruns') :
    Stays lo hi exact before after overruns' := by
  rwa [← propext same]

theorem mem_cells_here {packer : BinEncoder} {bytes : List UInt8} {entry : ℤ × UInt8}
    (member : entry ∈ cells (Packer.here packer) bytes) :
    packer.buffer + packer.writePos ≤ entry.1 ∧
      entry.1 < packer.buffer + packer.writePos + bytes.length := by
  obtain ⟨i, bound, here⟩ := (spells_cells (here_injective packer) bytes).inside entry member
  rw [here]
  unfold Packer.here
  omega

end Writes

/-! ### A `len` that is no length -/

section Start

variable {first later : Packer Unit} {begins : ℤ → Prop} {bytes : List UInt8}

/-- Packing code takes nothing back. -/
def Grows (pack : Packer Unit) : Prop :=
  ∀ packer, ∃ new, (pack packer).2.writes = packer.writes ++ new

theorem grows_pure : Grows (pure ()) := fun _ => ⟨[], (List.append_nil _).symm⟩

theorem grows_write (bytes : List UInt8) : Grows (Packer.write bytes) := by
  intro packer
  unfold Packer.write
  split_ifs with full
  · exact ⟨[], (List.append_nil _).symm⟩
  · exact ⟨_, rfl⟩

theorem grows_require (condition : Prop) [Decidable condition] : Grows (Packer.require condition) :=
  fun _ => ⟨[], (List.append_nil _).symm⟩

theorem grows_skipWritePos (len : ℕ) : Grows (Packer.skipWritePos len) := by
  intro packer
  unfold Packer.skipWritePos
  split_ifs with full
  · exact ⟨[], (List.append_nil _).symm⟩
  · exact ⟨[], (List.append_nil _).symm⟩

theorem Grows.bind (grows : Grows first) (grows' : Grows later) : Grows (first >>= fun _ => later) := by
  intro packer
  obtain ⟨new, same⟩ := grows packer
  rw [Packer.bind_apply]
  generalize first packer = done at same ⊢
  obtain ⟨ret, packer'⟩ := done
  cases ret with
  | none => exact ⟨new, same⟩
  | some _ =>
    obtain ⟨new', same'⟩ := grows' packer'
    refine ⟨new ++ new', same'.trans ?_⟩
    rw [same, List.append_assoc]

/-- An `Encode` takes nothing back. -/
def EncodeGrows (encode : Encode) : Prop :=
  ∀ data len writes, ∃ new, (encode data len writes).2 = writes ++ new

theorem encodeGrows_body {fields : ℤ → Packer Unit} (grows : ∀ len, Grows (fields len)) :
    EncodeGrows (encodeBody fields) := by
  intro data len writes
  obtain ⟨new, same⟩ := grows len ⟨0, data, toSize len, writes⟩
  refine ⟨new, ?_⟩
  unfold encodeBody
  generalize fields len _ = done at same ⊢
  obtain ⟨ret, packer⟩ := done
  cases ret with
  | none => exact same
  | some _ => exact same

theorem grows_nested {encode : Encode} (grows : EncodeGrows encode) (len : ℤ) :
    Grows (encodeNested encode len) := by
  intro packer
  unfold encodeNested
  dsimp only
  obtain ⟨new, same⟩ := grows (packer.buffer + toInt ((packer.writePos + 4) % 2 ^ 64))
    ((len - toInt ((packer.writePos + 4) % 2 ^ 64)).bmod (2 ^ 32)) packer.writes
  generalize encode _ _ _ = done at same ⊢
  obtain ⟨ret, writes⟩ := done
  cases ret with
  | none => exact ⟨new, same⟩
  | some subLen =>
    obtain ⟨new', same'⟩ := (grows_write (sizeBytes (subLen % 2 ^ 32).toNat)).bind
      (grows_skipWritePos (toSize subLen)) { packer with writes := writes }
    refine ⟨new ++ new', same'.trans ?_⟩
    rw [← List.append_assoc]
    exact congrArg (· ++ new') same

theorem grows_writeEach (type : IntType) (values : List type.Val) : Grows (writeEach type values) := by
  induction values with
  | nil => exact grows_pure
  | cons value rest ih => exact (grows_write _).bind ih

/-- The first field of a message: with the `len`s of `begins` it writes at the front of the buffer or
behind it; with the others it returns false at once. -/
def Starts (pack : ℤ → Packer Unit) (begins : ℤ → Prop) : Prop :=
  ∀ data len writes, ∃ new,
    (pack len ⟨0, data, toSize len, writes⟩).2.writes = writes ++ new ∧
      (begins len → ∃ entry ∈ new, data ≤ entry.1) ∧
      (¬ begins len → new = [] ∧ (pack len ⟨0, data, toSize len, writes⟩).1 = none)

theorem starts_write (some : bytes ≠ []) (fits : bytes.length < 2 ^ 64) :
    Starts (fun _ => Packer.write bytes) fun len => bytes.length ≤ toSize len := by
  intro data len writes
  unfold Packer.write
  dsimp only
  rw [Nat.zero_add, Nat.mod_eq_of_lt fits]
  by_cases full : toSize len < bytes.length
  · rw [if_pos full]
    refine ⟨[], (List.append_nil _).symm, fun enough => ?_, fun _ => ⟨rfl, rfl⟩⟩
    exact absurd full (Nat.not_lt.mpr enough)
  · rw [if_neg full]
    refine ⟨_, rfl, fun _ => ?_, fun short => absurd (Nat.not_lt.mp full) short⟩
    cases bytes with
    | nil => exact absurd rfl some
    | cons byte rest =>
      refine ⟨_, List.mem_cons_self, ?_⟩
      unfold Packer.here
      simp

theorem Starts.bind {first later : ℤ → Packer Unit} (starts : Starts first begins)
    (grows : ∀ len, Grows (later len)) :
    Starts (fun len => first len >>= fun _ => later len) begins := by
  intro data len writes
  obtain ⟨new, same, front, none⟩ := starts data len writes
  dsimp only
  rw [Packer.bind_apply]
  generalize first len _ = done at same none ⊢
  obtain ⟨ret, packer⟩ := done
  cases ret with
  | none => exact ⟨new, same, front, fun refused => ⟨(none refused).1, rfl⟩⟩
  | some _ =>
    obtain ⟨new', same'⟩ := grows len packer
    refine ⟨new ++ new', ?_, fun begins => ?_, fun refused => ?_⟩
    · dsimp only at same ⊢
      rw [same', same, List.append_assoc]
    · obtain ⟨entry, member, behind⟩ := front begins
      exact ⟨entry, List.mem_append_left _ member, behind⟩
    · cases (none refused).2

theorem Starts.require {pack : ℤ → Packer Unit} {condition : Prop} [Decidable condition]
    (starts : Starts pack begins) :
    Starts (fun len => Packer.require condition >>= fun _ => pack len)
      fun len => condition ∧ begins len := by
  intro data len writes
  dsimp only
  rw [Packer.bind_apply, Packer.require]
  by_cases holds : condition
  · rw [if_pos holds]
    obtain ⟨new, same, front, none⟩ := starts data len writes
    exact ⟨new, same, fun both => front both.2, fun refused => none fun begins => refused ⟨holds, begins⟩⟩
  · rw [if_neg holds]
    exact ⟨[], (List.append_nil _).symm, fun both => absurd both.1 holds, fun _ => ⟨rfl, rfl⟩⟩

theorem starts_sizeBytes (size : ℕ) :
    Starts (fun _ => Packer.write (sizeBytes size)) fun len => 4 ≤ toSize len := by
  have length := length_sizeBytes size
  have starts := starts_write (List.ne_nil_of_length_pos (by omega))
    (by omega : (sizeBytes size).length < 2 ^ 64)
  rwa [length] at starts

/-- A whole message; `empty` if it has no field. -/
def EncodeStarts (encode : Encode) (begins : ℤ → Prop) (empty : Prop) : Prop :=
  ∀ data len writes, ∃ new, (encode data len writes).2 = writes ++ new ∧
    (begins len → ∃ entry ∈ new, data ≤ entry.1) ∧
    (¬ begins len → new = [] ∧ ((encode data len writes).1.isSome ↔ empty))

theorem starts_nested {encode : Encode} {empty : Prop} (starts : EncodeStarts encode begins empty) :
    Starts (encodeNested encode) fun len =>
      begins ((len - 4).bmod (2 ^ 32)) ∨ empty ∧ 4 ≤ toSize len := by
  intro data len writes
  have subPos : toInt ((0 + 4) % 2 ^ 64) = 4 := by decide
  obtain ⟨new, same, front, none⟩ := starts (data + 4) ((len - 4).bmod (2 ^ 32)) writes
  unfold encodeNested
  dsimp only
  rw [subPos]
  by_cases inner : begins ((len - 4).bmod (2 ^ 32))
  · obtain ⟨entry, member, behind⟩ := front inner
    generalize encode _ _ _ = done at same ⊢
    obtain ⟨ret, writes'⟩ := done
    cases ret with
    | none =>
      refine ⟨new, same, fun _ => ⟨entry, member, by omega⟩, fun neither => ?_⟩
      exact absurd (.inl inner) neither
    | some subLen =>
      obtain ⟨new', same'⟩ := (grows_write (sizeBytes (subLen % 2 ^ 32).toNat)).bind
        (grows_skipWritePos (toSize subLen)) ⟨0, data, toSize len, writes'⟩
      refine ⟨new ++ new', ?_, fun _ => ⟨entry, List.mem_append_left _ member, by omega⟩, fun neither => ?_⟩
      · rw [← List.append_assoc, ← (show writes' = writes ++ new from same)]
        exact same'
      · exact absurd (.inl inner) neither
  · obtain ⟨rfl, returns⟩ := none inner
    rw [List.append_nil] at same
    generalize encode _ _ _ = done at same returns ⊢
    obtain ⟨ret, writes'⟩ := done
    obtain rfl : writes' = writes := same
    cases ret with
    | none =>
      have full : ¬ empty := fun empty => Bool.false_ne_true (returns.mpr empty)
      refine ⟨[], (List.append_nil _).symm, fun either => ?_, fun _ => ⟨rfl, rfl⟩⟩
      exact either.elim (absurd · inner) fun none => absurd none.1 full
    | some subLen =>
      have empty : empty := returns.mp rfl
      have length := (starts_sizeBytes (subLen % 2 ^ 32).toNat).bind
        fun _ => grows_skipWritePos (toSize subLen)
      obtain ⟨new, same, front, none⟩ := length data len writes'
      refine ⟨new, same, fun either => ?_, fun neither => ?_⟩
      · exact front (either.elim (absurd · inner) And.right)
      · exact none fun enough => neither (.inr ⟨empty, enough⟩)

theorem encodeStarts_body {fields : ℤ → Packer Unit} (starts : Starts fields begins) :
    EncodeStarts (encodeBody fields) begins False := by
  intro data len writes
  obtain ⟨new, same, front, none⟩ := starts data len writes
  unfold encodeBody
  generalize fields len _ = done at same none ⊢
  obtain ⟨ret, packer⟩ := done
  refine ⟨new, ?_, front, fun refused => ?_⟩
  · cases ret with
    | none => exact same
    | some _ => exact same
  · obtain ⟨rfl, refused⟩ := none refused
    obtain rfl : ret = Option.none := refused
    exact ⟨rfl, iff_of_false Bool.false_ne_true id⟩

end Start

mutual

theorem Field.grows : ∀ (field : Field) (value : field.Val) (len : ℤ), Grows (field.encode value len)
  | .simple type, value, _ => grows_write (type.toWire value)
  | .string max, bytes, _ =>
    (grows_require _).bind ((grows_write _).bind (grows_write bytes))
  | .struct message, value, len =>
    grows_nested (encodeGrows_body fun len => Schema.grows message value len) len
  | .simpleVec type max, values, _ =>
    (grows_require _).bind ((grows_write _).bind (grows_writeEach type values))
  | .structVec message max, values, len => by
    refine (grows_require _).bind ((grows_write _).bind ?_)
    cases (show List message.Val from values) with
    | nil => exact grows_pure
    | cons first _ => exact grows_nested (encodeGrows_body fun len => Schema.grows message first len) len

theorem Schema.grows : ∀ (schema : Schema) (value : schema.Val) (len : ℤ),
    Grows (schema.encodeFields value len)
  | .nil, _, _ => grows_pure
  | .cons field rest, (value, values), len =>
    (Field.grows field value len).bind (Schema.grows rest values len)

end

mutual

/-- **A field at the front of a message.** -/
theorem Field.starts : ∀ (field : Field) (value : field.Val),
    Starts (field.encode value) (field.Begins value)
  | .simple type, value => by
    have width : 0 < type.width ∧ type.width < 2 ^ 64 := by cases type <;> decide
    have length := type.length_toWire value
    have starts := starts_write (List.ne_nil_of_length_pos (by omega))
      (by omega : (type.toWire value).length < 2 ^ 64)
    rwa [length] at starts
  | .string max, bytes =>
    ((starts_sizeBytes _).bind fun _ => grows_write bytes).require
  | .struct message, value =>
    starts_nested (Schema.encodeStarts message value)
  | .simpleVec type max, values =>
    ((starts_sizeBytes _).bind fun _ => grows_writeEach type values).require
  | .structVec message max, values => by
    refine ((starts_sizeBytes _).bind fun len => ?_).require
    cases (show List message.Val from values) with
    | nil => exact grows_pure
    | cons first _ => exact grows_nested (encodeGrows_body fun len => Schema.grows message first len) len

/-- **A message whose `len` is no length.** -/
theorem Schema.encodeStarts : ∀ (schema : Schema) (value : schema.Val),
    EncodeStarts (encodeBody (schema.encodeFields value)) (schema.Begins value) (schema = .nil)
  | .nil, _ => fun _ _ writes =>
    ⟨[], (List.append_nil writes).symm, False.elim, fun _ => ⟨rfl, iff_of_true rfl rfl⟩⟩
  | .cons field rest, (value, values) => by
    have starts := encodeStarts_body ((Field.starts field value).bind (Schema.grows rest values))
    intro data len writes
    obtain ⟨new, same, front, none⟩ := starts data len writes
    refine ⟨new, same, front, fun refused => ⟨(none refused).1, (none refused).2.trans ?_⟩⟩
    exact iff_of_false id (Schema.noConfusion ·)

end

/-! ### Inside the buffer -/

/-- Packing code of these bytes in a packer of `len` bytes: it succeeds when the sizes are `checked` and
the bytes fit, and writes inside unless it `overruns` with what is left. -/
structure Runs (len : ℕ) (pack : Packer Unit) (bytes : List UInt8) (checked : Prop)
    (overruns : ℕ → Prop) : Prop where
  emits : Emits len pack bytes
  returns : ∀ packer, packer.len = len → packer.writePos ≤ len →
    ((pack packer).1.isSome ↔ checked ∧ packer.writePos + bytes.length ≤ len)
  stays : ∀ packer, packer.len = len → packer.writePos ≤ len →
    Stays packer.buffer (packer.buffer + len) (len + 4 < 2 ^ 31) packer.writes (pack packer).2.writes
      (overruns (len - packer.writePos))

/-- The same of an `Encode`. -/
structure EncodeRuns (encode : Encode) (bytes : List UInt8) (checked : Prop) (overruns : ℕ → Prop) :
    Prop where
  emits : EncodesTo encode bytes
  returns : ∀ data (len : ℕ) writes, len < 2 ^ 31 →
    ((encode data len writes).1.isSome ↔ checked ∧ bytes.length ≤ len)
  stays : ∀ data (len : ℕ) writes, len < 2 ^ 31 →
    Stays data (data + len) (len + 4 < 2 ^ 31) writes (encode data len writes).2 (overruns len)

section Run

variable {len : ℕ} {first later : Packer Unit} {front back bytes : List UInt8} {checked checked' : Prop}
  {overruns overruns' : ℕ → Prop}

theorem Runs.congr (runs : Runs len first bytes checked overruns) (same : checked ↔ checked')
    (same' : ∀ left, overruns left ↔ overruns' left) : Runs len first bytes checked' overruns' := by
  obtain rfl : checked = checked' := propext same
  obtain rfl : overruns = overruns' := funext fun left => propext (same' left)
  exact runs

theorem runs_pure (len : ℕ) : Runs len (pure ()) [] True fun _ => False :=
  ⟨emits_pure len, fun _ _ within => iff_of_true rfl ⟨trivial, within⟩, fun _ _ _ => stays_refl _ _ _ _⟩

theorem runs_write (small : len < 2 ^ 31) (fits : bytes.length < 2 ^ 32) :
    Runs len (Packer.write bytes) bytes True fun _ => False := by
  refine ⟨emits_write small bytes fits, ?_, ?_⟩
  · rintro packer rfl within
    by_cases room : packer.writePos + bytes.length ≤ packer.len
    · rw [Packer.write_ok packer small room]
      exact iff_of_true rfl ⟨trivial, room⟩
    · rw [Packer.write_full packer small within fits (Nat.not_le.mp room)]
      exact iff_of_false Bool.false_ne_true fun both => room both.2
  · rintro packer rfl within
    by_cases room : packer.writePos + bytes.length ≤ packer.len
    · rw [Packer.write_ok packer small room]
      refine ⟨_, rfl, fun _ => False.elim, fun _ entry member => ?_⟩
      have := mem_cells_here member
      omega
    · rw [Packer.write_full packer small within fits (Nat.not_le.mp room)]
      exact stays_refl _ _ _ _

theorem Runs.bind (runs : Runs len first front checked overruns)
    (runs' : Runs len later back checked' overruns') :
    Runs len (first >>= fun _ => later) (front ++ back) (checked ∧ checked') fun left =>
      overruns left ∨ checked ∧ front.length ≤ left ∧ overruns' (left - front.length) := by
  refine ⟨runs.emits.bind runs'.emits, ?_, ?_⟩
  · intro packer own within
    have returns := runs.returns packer own within
    rw [Packer.bind_apply, List.length_append]
    rcases ran : first packer with ⟨ret, packer'⟩
    rw [ran] at returns
    cases ret with
    | none =>
      refine iff_of_false Bool.false_ne_true fun both => Bool.false_ne_true (returns.mpr ⟨both.1.1, ?_⟩)
      omega
    | some _ =>
      obtain ⟨room, _, same, _⟩ := runs.emits packer packer' own within ran
      have passed := (returns.mp rfl).1
      have returns' := runs'.returns packer' (by rw [same, own]) (by rw [same]; exact room)
      rw [same] at returns' ⊢
      dsimp only at returns' ⊢
      rw [returns', and_iff_right passed, Nat.add_assoc]
  · intro packer own within
    have returns := runs.returns packer own within
    have stays := runs.stays packer own within
    rw [Packer.bind_apply]
    rcases ran : first packer with ⟨ret, packer'⟩
    rw [ran] at returns stays
    cases ret with
    | none =>
      refine stays.congr (or_iff_left fun ⟨passed, room, _⟩ => ?_).symm
      exact Bool.false_ne_true (returns.mpr ⟨passed, by omega⟩)
    | some _ =>
      obtain ⟨room, _, same, _⟩ := runs.emits packer packer' own within ran
      have passed := (returns.mp rfl).1
      have stays' := runs'.stays packer' (by rw [same, own]) (by rw [same]; exact room)
      have buffer : packer'.buffer = packer.buffer := by rw [same]
      have left : len - packer'.writePos = len - packer.writePos - front.length := by
        rw [same]
        exact Nat.sub_add_eq _ _ _
      rw [buffer, left] at stays'
      refine (stays.trans stays').congr (or_congr_right ?_)
      rw [and_iff_right passed, and_iff_right (by omega)]

theorem Runs.require {condition : Prop} [Decidable condition]
    (runs : condition → Runs len later bytes checked overruns) :
    Runs len (Packer.require condition >>= fun _ => later) bytes (condition ∧ checked) fun left =>
      condition ∧ overruns left := by
  refine ⟨Emits.require fun holds => (runs holds).emits, ?_, ?_⟩
  · intro packer own within
    rw [Packer.bind_apply, Packer.require]
    by_cases holds : condition
    · rw [if_pos holds, and_iff_right holds]
      exact (runs holds).returns packer own within
    · rw [if_neg holds]
      exact iff_of_false Bool.false_ne_true fun both => holds both.1.1
  · intro packer own within
    rw [Packer.bind_apply, Packer.require]
    by_cases holds : condition
    · rw [if_pos holds]
      exact ((runs holds).stays packer own within).congr (and_iff_right holds).symm
    · rw [if_neg holds]
      exact (stays_refl _ _ _ _).congr (iff_of_false id fun both => holds both.1)

theorem encodeRuns_body {fields : ℤ → Packer Unit}
    (runs : ∀ len : ℕ, len < 2 ^ 31 → Runs len (fields len) bytes checked overruns) :
    EncodeRuns (encodeBody fields) bytes checked overruns := by
  refine ⟨encodesTo_body fun len small => (runs len small).emits, fun data len writes small => ?_,
    fun data len writes small => ?_⟩
  · have returns := (runs len small).returns ⟨0, data, toSize len, writes⟩ (toSize_natCast (by omega))
      (Nat.zero_le _)
    dsimp only at returns
    rw [Nat.zero_add] at returns
    rw [← returns]
    unfold encodeBody
    generalize fields len _ = done
    obtain ⟨ret, packer⟩ := done
    cases ret with
    | none => exact iff_of_false Bool.false_ne_true Bool.false_ne_true
    | some _ => exact iff_of_true rfl rfl
  · have stays := (runs len small).stays ⟨0, data, toSize len, writes⟩ (toSize_natCast (by omega))
      (Nat.zero_le _)
    dsimp only at stays
    rw [Nat.sub_zero] at stays
    unfold encodeBody
    generalize fields len _ = done at stays ⊢
    obtain ⟨ret, packer⟩ := done
    cases ret with
    | none => exact stays
    | some _ => exact stays

/-- Without room for its length, a nested message fails, and what it has written lies behind the
buffer. -/
theorem encodeNested_full {encode : Encode} {begins : ℤ → Prop} {empty : Prop}
    (starts : EncodeStarts encode begins empty) (packer : BinEncoder) (small : packer.len < 2 ^ 31)
    (within : packer.writePos ≤ packer.len) (full : packer.len < packer.writePos + 4) :
    (encodeNested encode packer.len packer).1 = none ∧
      Stays packer.buffer (packer.buffer + packer.len) (packer.len + 4 < 2 ^ 31) packer.writes
        (encodeNested encode packer.len packer).2.writes
        (begins ((packer.len - packer.writePos : ℕ) - 4)) := by
  -- at the end of the largest buffers the position wraps, and the length does not
  have subPos : packer.len + 4 < 2 ^ 31 →
      toInt ((packer.writePos + 4) % 2 ^ 64) = (packer.writePos + 4 : ℕ) := by
    intro
    rw [Nat.mod_eq_of_lt (by omega), toInt_of_lt (by omega)]
  have subLen : ((packer.len : ℤ) - toInt ((packer.writePos + 4) % 2 ^ 64)).bmod (2 ^ 32)
      = (packer.len - packer.writePos : ℕ) - 4 := by
    rw [Nat.mod_eq_of_lt (by omega)]
    unfold toInt
    rw [Int.sub_bmod_bmod, Int.bmod_eq_of_le] <;> omega
  obtain ⟨new, same, front, none⟩ := starts (packer.buffer + toInt ((packer.writePos + 4) % 2 ^ 64))
    ((packer.len - packer.writePos : ℕ) - 4) packer.writes
  have stays : Stays packer.buffer (packer.buffer + packer.len) (packer.len + 4 < 2 ^ 31)
      packer.writes (packer.writes ++ new) (begins ((packer.len - packer.writePos : ℕ) - 4)) := by
    refine ⟨new, rfl, fun proper inner => ?_, fun refused entry member => ?_⟩
    · obtain ⟨entry, member, behind⟩ := front inner
      rw [subPos proper] at behind
      exact ⟨entry, member, by omega⟩
    · rw [(none refused).1] at member
      cases member
  unfold encodeNested
  dsimp only
  rw [subLen]
  generalize encode _ _ _ = done at same ⊢
  obtain ⟨ret, writes⟩ := done
  obtain rfl : writes = packer.writes ++ new := same
  cases ret with
  | none => exact ⟨rfl, stays⟩
  | some len' =>
    have size := length_sizeBytes (len' % 2 ^ 32).toNat
    have refused := @Packer.write_full (sizeBytes (len' % 2 ^ 32).toNat)
      { packer with writes := packer.writes ++ new } small within (by omega) (by rw [size]; exact full)
    dsimp only
    rw [Packer.bind_apply, refused]
    exact ⟨rfl, stays⟩

/-- With room for its length, a nested message has what is left behind it. -/
theorem encodeNested_room {encode : Encode} (runs : EncodeRuns encode bytes checked overruns)
    (packer : BinEncoder) (small : packer.len < 2 ^ 31) (room : packer.writePos + 4 ≤ packer.len) :
    ((encodeNested encode packer.len packer).1.isSome ↔
        checked ∧ packer.writePos + (4 + bytes.length) ≤ packer.len) ∧
      Stays packer.buffer (packer.buffer + packer.len) (packer.len + 4 < 2 ^ 31) packer.writes
        (encodeNested encode packer.len packer).2.writes
        (overruns (packer.len - packer.writePos - 4)) := by
  have subPos : toInt ((packer.writePos + 4) % 2 ^ 64) = (packer.writePos + 4 : ℕ) := by
    rw [Nat.mod_eq_of_lt (by omega), toInt_of_lt (by omega)]
  have subLen : ((packer.len : ℤ) - (packer.writePos + 4 : ℕ)).bmod (2 ^ 32)
      = (packer.len - packer.writePos - 4 : ℕ) := by
    rw [Int.bmod_eq_of_le] <;> omega
  have less : packer.len - packer.writePos - 4 < 2 ^ 31 := by omega
  have emits := runs.emits (packer.buffer + (packer.writePos + 4 : ℕ))
    (packer.len - packer.writePos - 4) packer.writes
  have returns := runs.returns (packer.buffer + (packer.writePos + 4 : ℕ))
    (packer.len - packer.writePos - 4) packer.writes less
  have stays := runs.stays (packer.buffer + (packer.writePos + 4 : ℕ))
    (packer.len - packer.writePos - 4) packer.writes less
  have stop : packer.buffer + (packer.writePos + 4 : ℕ) + (packer.len - packer.writePos - 4 : ℕ)
      = packer.buffer + packer.len := by omega
  rw [stop] at stays
  have wider := @Stays.mono _ _ _ _ _ (packer.len + 4 < 2 ^ 31) _ _ stays
    (show packer.buffer ≤ packer.buffer + (packer.writePos + 4 : ℕ) by omega) fun _ => by omega
  unfold encodeNested
  dsimp only
  rw [subPos, subLen]
  generalize encode _ _ _ = done at emits returns wider ⊢
  obtain ⟨ret, writes⟩ := done
  cases ret with
  | none =>
    refine ⟨iff_of_false Bool.false_ne_true fun both => ?_, wider⟩
    exact Bool.false_ne_true (returns.mpr ⟨both.1, by omega⟩)
  | some len' =>
    obtain ⟨reported, fits, _⟩ := emits len' writes less rfl
    dsimp only
    rw [Packer.prefix_reported { packer with writes := writes } reported small (by dsimp only; omega)]
    refine ⟨iff_of_true rfl ⟨(returns.mp rfl).1, by omega⟩, ?_⟩
    have length : Stays packer.buffer (packer.buffer + packer.len) (packer.len + 4 < 2 ^ 31) writes
        (writes ++ cells (Packer.here { packer with writes := writes }) (sizeBytes bytes.length))
        False := by
      refine ⟨_, rfl, fun _ => False.elim, fun _ entry member => ?_⟩
      have := mem_cells_here member
      rw [length_sizeBytes] at this
      dsimp only at this
      omega
    exact (wider.trans length).congr (or_iff_left id)

theorem runs_nested {encode : Encode} {begins : ℤ → Prop} {empty : Prop} (small : len < 2 ^ 31)
    (runs : EncodeRuns encode bytes checked overruns) (starts : EncodeStarts encode begins empty) :
    Runs len (encodeNested encode len) (framed bytes) checked (overrunsNested overruns begins) := by
  refine ⟨emits_nested small runs.emits, ?_, ?_⟩
  · rintro packer rfl within
    rw [length_framed]
    by_cases room : packer.writePos + 4 ≤ packer.len
    · exact (encodeNested_room runs packer small room).1
    · rw [(encodeNested_full starts packer small within (Nat.not_le.mp room)).1]
      exact iff_of_false Bool.false_ne_true fun both => room (by omega)
  · rintro packer rfl within
    unfold overrunsNested
    by_cases room : packer.writePos + 4 ≤ packer.len
    · rw [if_pos (by omega)]
      exact (encodeNested_room runs packer small room).2
    · rw [if_neg (by omega)]
      exact (encodeNested_full starts packer small within (Nat.not_le.mp room)).2

end Run

theorem runs_sizeBytes {len : ℕ} (small : len < 2 ^ 31) (size : ℕ) :
    Runs len (Packer.write (sizeBytes size)) (sizeBytes size) True fun _ => False :=
  runs_write small (by rw [length_sizeBytes]; omega)

theorem runs_toWire {len : ℕ} (small : len < 2 ^ 31) (type : IntType) (value : type.Val) :
    Runs len (Packer.write (type.toWire value)) (type.toWire value) True fun _ => False := by
  have width : type.width ≤ 8 := by cases type <;> decide
  refine runs_write small ?_
  rw [type.length_toWire]
  omega

/-- Code without nested messages, in front of code without nested messages. -/
theorem Runs.bind_plain {len : ℕ} {first later : Packer Unit} {front back : List UInt8}
    (runs : Runs len first front True fun _ => False)
    (runs' : Runs len later back True fun _ => False) :
    Runs len (first >>= fun _ => later) (front ++ back) True fun _ => False :=
  (runs.bind runs').congr (and_iff_left trivial) fun _ =>
    iff_of_false (fun either => either.elim id fun both => both.2.2) id

theorem runs_writeEach {len : ℕ} (small : len < 2 ^ 31) (type : IntType) (values : List type.Val) :
    Runs len (writeEach type values) (values.flatMap type.toWire) True fun _ => False := by
  induction values with
  | nil => exact runs_pure len
  | cons value rest ih =>
    rw [List.flatMap_cons]
    exact (runs_toWire small type value).bind_plain ih

/-- The loop over a repeated message, which a `break` ends. -/
theorem runs_first {α : Type} {encode : α → Encode} {image : α → List UInt8} {checked : α → Prop}
    {overruns : α → ℕ → Prop} {begins : α → ℤ → Prop} {empty : Prop} {len : ℕ} (small : len < 2 ^ 31)
    (values : List α)
    (runs : ∀ value, EncodeRuns (encode value) (image value) (checked value) (overruns value))
    (starts : ∀ value, EncodeStarts (encode value) (begins value) empty) :
    Runs len (match values with
      | [] => pure ()
      | first :: _ => encodeNested (encode first) len)
      ((values.take 1).flatMap fun value => framed (image value)) ((values.take 1).Forall checked)
      fun left => ∃ value ∈ values.take 1, overrunsNested (overruns value) (begins value) left := by
  cases values with
  | nil =>
    refine (runs_pure len).congr Iff.rfl fun left => iff_of_false id ?_
    rintro ⟨value, member, _⟩
    cases member
  | cons first rest =>
    rw [List.take_succ_cons, List.take_zero, List.flatMap_singleton]
    refine (runs_nested small (runs first) (starts first)).congr Iff.rfl fun left => ?_
    simp only [List.mem_singleton, exists_eq_left]

mutual

/-- **A field inside the buffer.** -/
theorem Field.runs : ∀ (field : Field) (value : field.Val) (len : ℕ), len < 2 ^ 31 →
    Runs len (field.encode value len) (field.image value) (field.Checked value) (field.Overruns value)
  | .simple type, value, _, small => runs_toWire small type value
  | .string max, bytes, _, small => by
    have runs := @Runs.require _ _ _ _ _ (List.length bytes ≤ max.toNat) _ fun fits =>
      (runs_sizeBytes small (List.length bytes)).bind_plain
        (@runs_write _ bytes small (fits.trans_lt max.toNat_lt))
    exact runs.congr (and_iff_left trivial) fun _ => iff_of_false (fun both => both.2) id
  | .struct message, value, _, small =>
    runs_nested small (encodeRuns_body fun len small => Schema.runs message value len small)
      (Schema.encodeStarts message value)
  | .simpleVec type max, values, _, small => by
    have runs := @Runs.require _ _ _ _ _ (List.length values ≤ max.toNat) _ fun _ =>
      (runs_sizeBytes small (List.length values)).bind_plain (runs_writeEach small type values)
    exact runs.congr (and_iff_left trivial) fun _ => iff_of_false (fun both => both.2) id
  | .structVec message max, values, len, small => by
    have runs := @Runs.require _ _ _ _ _ (List.length values ≤ max.toNat) _ fun _ =>
      (runs_sizeBytes small (List.length values)).bind (runs_first small values
        (fun value => encodeRuns_body fun len small => Schema.runs message value len small)
        fun value => Schema.encodeStarts message value)
    refine runs.congr (and_congr_right' (and_iff_right trivial)) fun left => and_congr_right' ?_
    rw [false_or, and_iff_right trivial, length_sizeBytes]

/-- **A message inside the buffer.** -/
theorem Schema.runs : ∀ (schema : Schema) (value : schema.Val) (len : ℕ), len < 2 ^ 31 →
    Runs len (schema.encodeFields value len) (schema.image value) (schema.Checked value)
      (schema.Overruns value)
  | .nil, _, len, _ => runs_pure len
  | .cons field rest, (value, values), len, small =>
    (Field.runs field value len small).bind (Schema.runs rest values len small)

end

/-! ### The whole message -/

mutual

/-- The sizes tested are among all sizes. -/
theorem Field.Fits.checked : ∀ {field : Field} {value : field.Val}, field.Fits value →
    field.Checked value
  | .simple _, _, _ => trivial
  | .string _, _, fits => fits
  | .struct _, _, fits => Schema.Fits.checked fits
  | .simpleVec _ _, _, fits => fits
  | .structVec _ _, _, fits => ⟨fits.1, List.forall_iff_forall_mem.mpr fun value member =>
      Schema.Fits.checked (List.forall_iff_forall_mem.mp fits.2 value (List.mem_of_mem_take member))⟩

theorem Schema.Fits.checked : ∀ {schema : Schema} {value : schema.Val}, schema.Fits value →
    schema.Checked value
  | .nil, _, _ => trivial
  | .cons _ _, _, fits => ⟨Field.Fits.checked fits.1, Schema.Fits.checked fits.2⟩

end

theorem Schema.encodeRuns (schema : Schema) (value : schema.Val) :
    EncodeRuns (schema.encode value) (schema.image value) (schema.Checked value)
      (schema.Overruns value) :=
  encodeRuns_body fun len small => Schema.runs schema value len small

end Yarf.Net
