/-
**What the bytes of the ring say.**

`Layout buff C h n packets`: walking from cell `h`, the next `n` cells of the ring hold exactly these
packets, in order. Each packet is contiguous; it may be preceded by skipped cells at the end of the
ring, which either are too few for a head or carry the place-holder head.

* `Layout.congr` — the layout depends on the live cells only;
* `Layout.snoc` — a packet may be appended behind the live cells;
* `packWrites_free`, `packWrites_skipAt`, `packWrites_packAt` — the bytes `Send` writes lie behind
  the live cells and spell out the packet;
* `seek_first`, `checkPack_first`, `getNextPack_first` — on a ring laid out like this `GetNextPack`
  finds the oldest packet, and decides the skip the way the sender did.

The layout is the only thing sender and receiver share: both the sequential queue and the
interleaved one are verified through it.
-/

import Yarf.Channel.Sizes

namespace Yarf.Channel

open Lib

/-- A message in the ring. -/
structure Packet where
  seq : UInt32
  body : List UInt8
  deriving DecidableEq

/-- The bytes a packet occupies. -/
def Packet.size (pack : Packet) : ℕ := 48 + roundUp pack.body.length

/-- A packet lies at an offset of the ring. -/
structure PackAt (buff : ℕ → UInt8) (offset : ℕ) (pack : Packet) : Prop where
  cmd : (ChannelPackHead.read buff offset).cmd = kChannelCmdTransfer
  bodyLen : (ChannelPackHead.read buff offset).bodyLen.toNat = pack.body.length
  alignBodyLen : (ChannelPackHead.read buff offset).alignBodyLen.toNat = roundUp pack.body.length
  seq : (ChannelPackHead.read buff offset).seq = pack.seq
  body : load buff (span (offset + 48)) pack.body.length = pack.body

/-- From `h`, `skip` cells up to the end of the ring are to be skipped. -/
def SkipAt (buff : ℕ → UInt8) (C h skip : ℕ) : Prop :=
  skip = 0 ∨
    h + skip = C ∧ (skip < 48 ∨ (ChannelPackHead.read buff h).cmd = kChannelCmdPlaceHolder)

/-- The `n` cells from `h` on hold these packets. -/
inductive Layout (buff : ℕ → UInt8) (C : ℕ) : ℕ → ℕ → List Packet → Prop
  | nil (h : ℕ) : Layout buff C h 0 []
  | cons {h skip n : ℕ} {pack : Packet} {rest : List Packet} :
      SkipAt buff C h skip → PackAt buff (slot C h skip) pack → slot C h skip + pack.size ≤ C →
      Layout buff C (slot C h (skip + pack.size)) n rest →
      Layout buff C h (skip + pack.size + n) (pack :: rest)

/-! ### The layout is determined by the live cells -/

section Frame

variable {buff other : ℕ → UInt8} {C h n : ℕ}

theorem PackAt.congr {offset : ℕ} {pack : Packet} (lies : PackAt buff offset pack)
    (agree : ∀ i, i < pack.size → buff (offset + i) = other (offset + i)) :
    PackAt other offset pack := by
  have long : pack.body.length ≤ roundUp pack.body.length := le_roundUp _
  unfold Packet.size at agree
  have same : ChannelPackHead.read buff offset = ChannelPackHead.read other offset :=
    ChannelPackHead.read_congr fun i bound => agree i (by omega)
  refine ⟨same ▸ lies.cmd, same ▸ lies.bodyLen, same ▸ lies.alignBodyLen, same ▸ lies.seq, ?_⟩
  rw [← lies.body, length_load]
  refine (load_congr fun i bound => ?_).symm
  rw [span_apply, Nat.add_assoc]
  exact agree _ (by omega)

/-- The size that `GetNextPack` computes from the pack head. -/
theorem PackAt.size {offset : ℕ} {pack : Packet} (lies : PackAt buff offset pack) :
    (kPackHeadSize + (ChannelPackHead.read buff offset).alignBodyLen.toUInt32).toNat = pack.size := by
  have small16 := (ChannelPackHead.read buff offset).alignBodyLen.toNat_lt
  have value := lies.alignBodyLen
  rw [UInt32.toNat_add, UInt16.toNat_toUInt32, show kPackHeadSize.toNat = 48 from rfl, Packet.size]
  omega

theorem SkipAt.congr {skip : ℕ} (skips : SkipAt buff C h skip)
    (agree : ∀ i, i < skip → buff (h + i) = other (h + i)) : SkipAt other C h skip := by
  rcases skips with none | ⟨toEnd, short | holder⟩
  · exact Or.inl none
  · exact Or.inr ⟨toEnd, Or.inl short⟩
  · by_cases short : skip < 48
    · exact Or.inr ⟨toEnd, Or.inl short⟩
    · have same : ChannelPackHead.read buff h = ChannelPackHead.read other h :=
        ChannelPackHead.read_congr fun i bound => agree i (by omega)
      exact Or.inr ⟨toEnd, Or.inr (same ▸ holder)⟩

/-- **Frame.** Memories that agree on the live cells hold the same packets. -/
theorem Layout.congr {packets : List Packet} (lay : Layout buff C h n packets) (hLt : h < C)
    (agree : ∀ i, i < n → buff (slot C h i) = other (slot C h i)) :
    Layout other C h n packets := by
  induction lay with
  | nil h => exact .nil h
  | @cons h skip n pack rest skips lies inside _ ih =>
    have positive : 0 < C := by omega
    refine .cons (skips.congr fun i bound => ?_) (lies.congr fun i bound => ?_) inside
      (ih (slot_lt _ _ positive) fun i bound => ?_)
    · have room : h + i < C := by
        rcases skips with none | ⟨toEnd, _⟩
        · omega
        · omega
      have cell := agree i (by omega)
      rwa [slot_of_lt room] at cell
    · have cell := agree (skip + i) (by omega)
      rwa [← slot_slot, slot_of_lt (by omega : slot C h skip + i < C)] at cell
    · rw [slot_slot]
      exact agree _ (by omega)

/-- A packet appended behind the live cells. -/
theorem Layout.snoc {packets : List Packet} {skip : ℕ} {pack : Packet}
    (lay : Layout buff C h n packets) (skips : SkipAt buff C (slot C h n) skip)
    (lies : PackAt buff (slot C (slot C h n) skip) pack)
    (inside : slot C (slot C h n) skip + pack.size ≤ C) (hLt : h < C) :
    Layout buff C h (n + (skip + pack.size)) (packets ++ [pack]) := by
  induction lay with
  | nil h =>
    rw [slot_zero hLt] at skips lies inside
    rw [Nat.zero_add, ← Nat.add_zero (skip + pack.size)]
    exact .cons skips lies inside (.nil _)
  | cons first lies' inside' _ ih =>
    rw [← slot_slot] at skips lies inside
    have later := ih skips lies inside (slot_lt _ _ (by omega))
    rw [Nat.add_assoc]
    exact .cons first lies' inside' later

/-- Some live cells, some packet. -/
theorem Layout.exists_cons {packets : List Packet} (lay : Layout buff C h n packets)
    (some : 0 < n) : ∃ pack rest, packets = pack :: rest := by
  cases lay with
  | nil => omega
  | cons => exact ⟨_, _, rfl⟩

end Frame

/-! ### The bytes `Send` writes -/

section Writes

variable {C t size skip : ℕ} {at_ : Place} {pack : ChannelPackHead} {data : List UInt8}

/-- Every byte `Send` writes lies at most `skip + size` cells behind the tail. -/
theorem packWrites_slot (geometry : Placed C t size skip at_)
    (long : 48 + data.length ≤ size) {entry : ℕ × UInt8} (member : entry ∈ packWrites at_ pack data) :
    ∃ i, i < skip + size ∧ entry.1 < C ∧ entry.1 = slot C t i := by
  obtain ⟨start, inside, skipped⟩ := geometry
  have packet : ∀ j, j < size → ∃ i, i < skip + size ∧ at_.curTail.toNat + j < C ∧
      at_.curTail.toNat + j = slot C t i := by
    intro j bound
    refine ⟨skip + j, by omega, by omega, ?_⟩
    rw [← slot_slot, ← start, slot_of_lt (by omega)]
  unfold packWrites at member
  rcases List.mem_append.mp member with member | inBody
  · rcases List.mem_append.mp member with inHolder | inHead
    · rcases skipped with ⟨_, none⟩ | ⟨_, _, none⟩ | ⟨toEnd, wide, offset, some, same⟩
      · rw [none] at inHolder
        cases inHolder
      · rw [none] at inHolder
        cases inHolder
      · rw [some] at inHolder
        obtain ⟨j, bound, here⟩ := mem_cells inHolder
        rw [ChannelPackHead.length_toBytes] at bound
        rw [span_apply, same] at here
        refine ⟨j, by omega, by omega, ?_⟩
        rw [here, slot_of_lt (by omega)]
    · obtain ⟨j, bound, here⟩ := mem_cells inHead
      rw [ChannelPackHead.length_toBytes] at bound
      rw [here]
      exact packet j (by omega)
  · obtain ⟨j, bound, here⟩ := mem_cells inBody
    rw [here, span_apply, Nat.add_assoc]
    exact packet (48 + j) (by omega)

/-- Seen from the head, the bytes `Send` writes lie behind the live cells. -/
theorem packWrites_free {h n : ℕ} (geometry : Placed C (slot C h n) size skip at_)
    (long : 48 + data.length ≤ size) {entry : ℕ × UInt8}
    (member : entry ∈ packWrites at_ pack data) :
    ∃ i, n ≤ i ∧ i < n + (skip + size) ∧ entry.1 = slot C h i := by
  obtain ⟨i, bound, _, here⟩ := packWrites_slot geometry long member
  refine ⟨n + i, by omega, by omega, ?_⟩
  rw [here, slot_slot]

/-- The writes leave every live cell alone. -/
theorem write_packWrites_live {h n : ℕ} (buff : ℕ → UInt8)
    (geometry : Placed C (slot C h n) size skip at_) (room : n + skip + size < C)
    (long : 48 + data.length ≤ size) (i : ℕ) (live : i < n) :
    write buff (packWrites at_ pack data) (slot C h i) = buff (slot C h i) := by
  refine write_apply_of_forall_ne _ _ _ fun entry member same => ?_
  obtain ⟨j, behind, bound, here⟩ := packWrites_free geometry long member
  have := slot_inj (by omega) (by omega) (here ▸ same : slot C h j = slot C h i)
  omega

/-- After the writes the skipped cells are marked. -/
theorem packWrites_skipAt (buff : ℕ → UInt8) (geometry : Placed C t size skip at_)
    (room : skip + size < C) (long : 48 + data.length ≤ size) :
    SkipAt (write buff (packWrites at_ pack data)) C t skip := by
  obtain ⟨start, inside, skipped⟩ := geometry
  rcases skipped with ⟨none, _⟩ | ⟨toEnd, short, _⟩ | ⟨toEnd, wide, offset, some, same⟩
  · exact Or.inl none
  · exact Or.inr ⟨toEnd, Or.inl short⟩
  · refine Or.inr ⟨toEnd, Or.inr ?_⟩
    unfold packWrites
    rw [some, List.append_assoc, write_append, holdWrites, same]
    have kept : ∀ i, i < 48 →
        write (write buff (cells (span t) ChannelPackHead.placeHoldHead.toBytes))
          (cells (span at_.curTail.toNat) pack.toBytes
            ++ cells (span (at_.curTail.toNat + 48)) data) (t + i)
          = write buff (cells (span t) ChannelPackHead.placeHoldHead.toBytes) (t + i) := by
      intro i bound
      refine write_apply_of_forall_ne _ _ _ fun entry member equal => ?_
      have packet : ∀ j, j < size → at_.curTail.toNat + j ≠ t + i := by
        intro j inPacket equal
        have clash : slot C t (skip + j) = slot C t i := by
          rw [← slot_slot, ← start, slot_of_lt (by omega), slot_of_lt (by omega : t + i < C), equal]
        have := slot_inj (by omega) (by omega) clash
        omega
      rcases List.mem_append.mp member with inHead | inBody
      · obtain ⟨j, inPacket, here⟩ := mem_cells inHead
        rw [ChannelPackHead.length_toBytes] at inPacket
        exact packet j (by omega) (here.symm.trans equal)
      · obtain ⟨j, inPacket, here⟩ := mem_cells inBody
        rw [span_apply, Nat.add_assoc] at here
        exact packet (48 + j) (by omega) (here.symm.trans equal)
    rw [ChannelPackHead.read_congr kept, ChannelPackHead.read_write]
    rfl

/-- After the writes the pack head and the body lie at the packet's offset. -/
theorem read_packWrites (buff : ℕ → UInt8) (at_ : Place) (pack : ChannelPackHead) (data : List UInt8) :
    ChannelPackHead.read (write buff (packWrites at_ pack data)) at_.curTail.toNat = pack ∧
      load (write buff (packWrites at_ pack data)) (span (at_.curTail.toNat + 48)) data.length
        = data := by
  unfold packWrites
  rw [write_append, write_append]
  refine ⟨?_, load_write_cells _ _ _ (span_injOn _ _)⟩
  have kept := fun i (_ : i < 48) => write_cells_of_forall_ne
    (write (write buff (holdWrites at_.placeHold)) (cells (span at_.curTail.toNat) pack.toBytes))
    (span (at_.curTail.toNat + 48)) data (at_.curTail.toNat + i) fun j _ => by
      rw [span_apply]
      omega
  rw [ChannelPackHead.read_congr kept, ChannelPackHead.read_write]

/-- The head `Send` writes represents every length up to `65528`. -/
theorem packWrites_packAt (buff : ℕ → UInt8) (at_ : Place) (data : Message) (seq : UInt32)
    (reserve : Reserve) (short : data.bytes.length ≤ 65528) :
    PackAt (write buff (packWrites at_ (packHeader data.len seq reserve) data.bytes))
      at_.curTail.toNat ⟨seq, data.bytes⟩ := by
  obtain ⟨head, body⟩ := read_packWrites buff at_ (packHeader data.len seq reserve) data.bytes
  have len := data.toNat_len
  have fits : 48 + data.len.toNat + 7 < 2 ^ 32 := by omega
  have size := toNat_alignPackSize fits
  have less := roundUp_lt data.bytes.length
  refine ⟨?_, ?_, ?_, ?_, body⟩
  · rw [head]
    rfl
  · rw [head]
    show data.len.toUInt16.toNat = data.bytes.length
    rw [UInt32.toNat_toUInt16, len]
    omega
  · rw [head]
    show (alignPackSize data.len - kPackHeadSize).toUInt16.toNat = roundUp data.bytes.length
    have eight : roundUp data.bytes.length ≤ 65528 := by
      unfold roundUp
      omega
    rw [UInt32.toNat_toUInt16, UInt32.toNat_sub, size, toNat_kPackHeadSize, len]
    omega
  · rw [head]
    rfl

/-- **One `Send`, seen in the ring.** The packet it wrote is appended to those that were there. -/
theorem Layout.afterSend {buff : ℕ → UInt8} {h n : ℕ} {packets : List Packet} {data : Message}
    (lay : Layout buff C h n packets) (hLt : h < C)
    (geometry : Placed C (slot C h n) (48 + roundUp data.bytes.length) skip at_)
    (room : n + skip + (48 + roundUp data.bytes.length) < C) (seq : UInt32) (reserve : Reserve)
    (short : data.bytes.length ≤ 65528) :
    Layout (write buff (packWrites at_ (packHeader data.len seq reserve) data.bytes)) C h
      (n + (skip + (48 + roundUp data.bytes.length))) (packets ++ [⟨seq, data.bytes⟩]) := by
  have long : 48 + data.bytes.length ≤ 48 + roundUp data.bytes.length :=
    Nat.add_le_add_left (le_roundUp _) 48
  have kept : Layout (write buff (packWrites at_ (packHeader data.len seq reserve) data.bytes)) C h n
      packets :=
    lay.congr hLt fun i live => (write_packWrites_live buff geometry room long i live).symm
  have skips : SkipAt (write buff (packWrites at_ (packHeader data.len seq reserve) data.bytes)) C
      (slot C h n) skip := packWrites_skipAt buff geometry (by omega) long
  have lies := packWrites_packAt buff at_ data seq reserve short
  have inside : at_.curTail.toNat + Packet.size ⟨seq, data.bytes⟩ ≤ C := geometry.inside
  rw [geometry.start] at lies inside
  have appended := kept.snoc skips lies inside hLt
  exact appended

/-- The tail `Send` publishes lies right behind the packet. -/
theorem toNat_nextTail {capacity sizeWord : UInt32} (geometry : Placed capacity.toNat t size skip at_)
    (same : sizeWord.toNat = size) :
    (nextTail capacity sizeWord at_).toNat = slot capacity.toNat t (skip + size) := by
  have capLt := capacity.toNat_lt
  have inside := geometry.inside
  rw [nextTail, UInt32.toNat_mod, UInt32.toNat_add, same,
    Nat.mod_eq_of_lt (by omega : at_.curTail.toNat + size < 2 ^ 32), geometry.start, ← slot,
    slot_slot]

end Writes

/-! ### The packet `GetNextPack` finds -/

/-- The first of the `n` cells from `h` on, after `skip` of them, hold a packet. -/
structure First (buff : ℕ → UInt8) (C h n skip : ℕ) (pack : Packet) : Prop where
  skips : SkipAt buff C h skip
  lies : PackAt buff (slot C h skip) pack
  inside : slot C h skip + pack.size ≤ C
  within : skip + pack.size ≤ n

section First

variable {buff other : ℕ → UInt8} {C h n skip : ℕ} {pack : Packet} {rest : List Packet}

/-- A layout with a packet, taken apart. -/
theorem Layout.first (lay : Layout buff C h n (pack :: rest)) :
    ∃ skip left, n = skip + pack.size + left ∧ First buff C h n skip pack ∧
      Layout buff C (slot C h (skip + pack.size)) left rest := by
  cases lay with
  | @cons _ skip left _ _ skips lies inside later =>
    exact ⟨skip, left, rfl, ⟨skips, lies, inside, Nat.le_add_right _ _⟩, later⟩

theorem First.mono {m : ℕ} (first : First buff C h n skip pack) (more : n ≤ m) :
    First buff C h m skip pack :=
  ⟨first.skips, first.lies, first.inside, first.within.trans more⟩

theorem First.congr (first : First buff C h n skip pack)
    (agree : ∀ i, i < n → buff (slot C h i) = other (slot C h i)) : First other C h n skip pack := by
  obtain ⟨skips, lies, inside, within⟩ := first
  have positive : 48 ≤ pack.size := Nat.le_add_right _ _
  refine ⟨skips.congr fun i bound => ?_, lies.congr fun i bound => ?_, inside, within⟩
  · have cell := agree i (by omega)
    have room : h + i < C := by
      rcases skips with none | ⟨toEnd, _⟩
      · omega
      · omega
    rwa [slot_of_lt room] at cell
  · have cell := agree (skip + i) (by omega)
    rwa [← slot_slot, slot_of_lt (by omega : slot C h skip + i < C)] at cell

/-- The bytes of the ring leave no choice about the skip. -/
theorem First.unique {m skip' : ℕ} {pack' : Packet} (first : First buff C h n skip pack)
    (second : First buff C h m skip' pack') (hLt : h < C) : skip = skip' := by
  have transfer : kChannelCmdTransfer ≠ kChannelCmdPlaceHolder := by decide
  have long : 48 ≤ pack.size := Nat.le_add_right _ _
  have long' : 48 ≤ pack'.size := Nat.le_add_right _ _
  rcases first.skips with none | ⟨toEnd, marked⟩
  · rcases second.skips with none' | ⟨toEnd', marked'⟩
    · omega
    · have lies := first.lies
      have inside := first.inside
      rw [none, slot_zero hLt] at lies inside
      rcases marked' with short | holder
      · omega
      · exact absurd (lies.cmd.symm.trans holder) transfer
  · rcases second.skips with none' | ⟨toEnd', _⟩
    · have lies := second.lies
      have inside := second.inside
      rw [none', slot_zero hLt] at lies inside
      rcases marked with short | holder
      · omega
      · exact absurd (lies.cmd.symm.trans holder) transfer
    · omega

end First

section Receive

variable {buff : ℕ → UInt8} {capacity head tail : UInt32} {n skip : ℕ} {pack : Packet}

/-- What `GetNextPack` reports about the packet that lies `skip` cells behind the head. -/
structure Found (buff : ℕ → UInt8) (capacity head : UInt32) (skip : ℕ) (pack : Packet)
    (next : NextPack) : Prop where
  lies : PackAt buff (slot capacity.toNat head.toNat skip) pack
  curHead : next.curHead.toNat = slot capacity.toNat head.toNat skip
  bodyLen : next.packHead.bodyLen.toNat = pack.body.length
  /-- Taking the packet moves the head past it. -/
  nextHead : (next.nextHead capacity).toNat = slot capacity.toNat head.toNat (skip + pack.size)

theorem Found.view {next : NextPack} (found : Found buff capacity head skip pack next) :
    next.view = ⟨slot capacity.toNat head.toNat skip + 48, pack.body.length⟩ := by
  rw [NextPack.view, NextPack.bodyOffset, found.curHead, found.bodyLen]

/-- The view of the packet found shows the packet's body. -/
theorem Found.view_bytes {next : NextPack} (found : Found buff capacity head skip pack next) :
    next.view.bytes buff = pack.body := by
  rw [found.view]
  exact found.lies.body

/-- **The skip of the receiver is the skip of the sender.** -/
theorem seek_first (small : capacity.toNat ≤ 2 ^ 31) (headLt : head.toNat < capacity.toNat)
    (nLt : n < capacity.toNat) (tailAt : tail.toNat = slot capacity.toNat head.toNat n)
    (first : First buff capacity.toNat head.toNat n skip pack) :
    ∃ curHead, seek capacity buff head tail = .ok curHead ∧
      curHead.toNat = slot capacity.toNat head.toNat skip := by
  obtain ⟨skips, lies, inside, within⟩ := first
  have capLt := capacity.toNat_lt
  have sizePos : 48 ≤ pack.size := Nat.le_add_right _ _
  have tailLt : tail.toNat < capacity.toNat := tailAt ▸ slot_lt _ _ (by omega)
  have alloc : (allocSize capacity head tail).toNat = n := by
    rw [allocSize_eq small headLt tailLt, tailAt, gap_slot headLt nLt]
  have toEnd_ : (capacity - head).toNat = capacity.toNat - head.toNat := by
    rw [UInt32.toNat_sub]
    omega
  unfold seek
  simp only [UInt32.lt_iff_toNat_lt, toEnd_, toNat_kPackHeadSize, alloc]
  rcases skips with none | ⟨toEnd, marked⟩
  · subst none
    rw [slot_zero headLt] at lies inside
    have packet : ¬ (ChannelPackHead.read buff head.toNat).cmd = kChannelCmdPlaceHolder := by
      rw [lies.cmd]
      decide
    rw [if_neg (by omega), if_neg packet]
    exact ⟨head, rfl, (slot_zero headLt).symm⟩
  · have atZero : slot capacity.toNat head.toNat skip = 0 := by
      rw [slot_of_le (by omega) (by omega)]
      omega
    by_cases short : capacity.toNat - head.toNat < 48
    · rw [if_pos short, if_neg (by omega)]
      exact ⟨0, rfl, atZero.symm⟩
    · have holder := marked.resolve_left (by omega)
      rw [if_neg short, if_pos holder, if_neg (by omega)]
      exact ⟨0, rfl, atZero.symm⟩

/-- The tests on the pack head pass on a packet `Send` has written. -/
theorem checkPack_first {curHead : UInt32} (small : capacity.toNat ≤ 2 ^ 31)
    (nLt : n < capacity.toNat) (tailAt : tail.toNat = slot capacity.toNat head.toNat n)
    (first : First buff capacity.toNat head.toNat n skip pack)
    (curAt : curHead.toNat = slot capacity.toNat head.toNat skip) :
    ∃ next, checkPack capacity (ChannelPackHead.read buff curHead.toNat) curHead tail = .ok next ∧
      Found buff capacity head skip pack next := by
  obtain ⟨_, lies, inside, within⟩ := first
  have capLt := capacity.toNat_lt
  have positive : 0 < capacity.toNat := by omega
  have tailLt : tail.toNat < capacity.toNat := tailAt ▸ slot_lt _ _ positive
  have curLt : curHead.toNat < capacity.toNat := curAt ▸ slot_lt _ _ positive
  have found := lies
  rw [← curAt] at lies inside
  obtain ⟨left, total⟩ := Nat.exists_eq_add_of_le within
  have size := lies.size
  have tailSlot : tail.toNat = slot capacity.toNat curHead.toNat (pack.size + left) := by
    rw [tailAt, curAt, slot_slot, total, Nat.add_assoc]
  have alloc : (allocSize capacity curHead tail).toNat = pack.size + left := by
    rw [allocSize_eq small curLt tailLt, tailSlot, gap_slot curLt (by omega)]
  have enough : ¬ kPackHeadSize + (ChannelPackHead.read buff curHead.toNat).alignBodyLen.toUInt32
      > allocSize capacity curHead tail := by
    rw [gt_iff_lt, UInt32.lt_iff_toNat_lt, size, alloc]
    omega
  refine ⟨⟨curHead, kPackHeadSize + (ChannelPackHead.read buff curHead.toNat).alignBodyLen.toUInt32,
    ChannelPackHead.read buff curHead.toNat⟩, ?_, found, curAt, lies.bodyLen, ?_⟩
  · unfold checkPack
    rw [if_neg (fun differs => differs lies.cmd), if_neg enough]
  · show ((curHead + _) % capacity).toNat = _
    rw [UInt32.toNat_mod, UInt32.toNat_add, size, ← slot_slot, ← curAt, slot,
      Nat.mod_eq_of_lt (by omega : curHead.toNat + pack.size < 2 ^ 32)]

/-- **`GetNextPack`** on cells that begin with a packet reports that packet. -/
theorem getNextPack_first (small : capacity.toNat ≤ 2 ^ 31) (headLt : head.toNat < capacity.toNat)
    (nLt : n < capacity.toNat) (tailAt : tail.toNat = slot capacity.toNat head.toNat n)
    (first : First buff capacity.toNat head.toNat n skip pack) :
    ∃ next, getNextPack capacity buff head tail = .ok next ∧
      Found buff capacity head skip pack next := by
  have some : 48 ≤ n := (Nat.le_add_right _ _).trans ((Nat.le_add_left _ _).trans first.within)
  have apart : tail ≠ head := by
    rintro rfl
    have := gap_slot headLt nLt
    rw [← tailAt, gap_self headLt] at this
    omega
  obtain ⟨curHead, sought, curAt⟩ := seek_first small headLt nLt tailAt first
  obtain ⟨next, checked, found⟩ := checkPack_first small nLt tailAt first curAt
  refine ⟨next, ?_, found⟩
  rw [getNextPack, if_neg apart, sought]
  exact checked

/-- On an empty layout `GetNextPack` reports an empty queue. -/
theorem getNextPack_empty (headLt : head.toNat < capacity.toNat)
    (tailAt : tail.toNat = slot capacity.toNat head.toNat 0) :
    getNextPack capacity buff head tail = .error .kChanEmpty := by
  rw [slot_zero headLt, UInt32.toNat_inj] at tailAt
  exact if_pos tailAt

end Receive

end Yarf.Channel
