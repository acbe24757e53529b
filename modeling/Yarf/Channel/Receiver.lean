/-
**What the receiver accepts.**

The ring is shared with another process, so a pack head in it may hold anything. `GetNextPack` compares
`align_body_len` with the bytes up to the tail, counted around the ring; `body_len`, which `Peek` and
`Recv` go by, is compared with nothing.

* `nextPack_eq_ok_iff` — which contents of the ring are accepted as a packet;
* `robust_iff` — when a packet that is accepted lies in the ring and in its own bytes.
-/

import Yarf.Channel.SendLimits

namespace Yarf.Channel

open Lib

/-! ### What is asked of the receiver -/

/-- A packet lies contiguously inside the ring and inside the occupied region. -/
structure Contained (queue : Queue) (pack : NextPack) : Prop where
  ring : pack.curHead.toNat + 48 + pack.packHead.bodyLen.toNat ≤ queue.header.capacity.toNat
  packet : 48 + pack.packHead.bodyLen.toNat ≤ pack.alignPackSize.toNat
  occupied : pack.alignPackSize.toNat
    ≤ gap queue.header.capacity.toNat pack.curHead.toNat queue.header.tail.toNat

/-- **Robustness of the receiver**: a packet that `GetNextPack` reports is contained, and its body is what
`Peek` exposes and `Recv` copies; any other content is refused, and the queue stays as it is. -/
def Robust (queue : Queue) : Prop :=
  (∀ pack, queue.nextPack = .ok pack → Contained queue pack ∧
    (peek queue).1 = .ok ⟨pack.curHead.toNat + 48, pack.packHead.bodyLen.toNat⟩ ∧
    ∀ len bytes, (recv queue len).1 = .ok bytes →
      bytes = load queue.buff (span (pack.curHead.toNat + 48)) pack.packHead.bodyLen.toNat) ∧
  ∀ err, queue.nextPack = .error err →
    (err = .kChanEmpty ∨ err = .kChanPackInvalid ∨ err = .kUnexpect) ∧
    peek queue = (.error err, queue) ∧ drop queue = (.error err, queue) ∧
    ∀ len, recv queue len = (.error err, queue)

/-- The end of the ring is skipped: no pack head fits there, or a place-holder lies there. -/
def Queue.Skips (queue : Queue) : Prop :=
  queue.header.capacity.toNat - queue.header.head.toNat < 48 ∨
    (ChannelPackHead.read queue.buff queue.header.head.toNat).cmd = kChannelCmdPlaceHolder

instance (queue : Queue) : Decidable queue.Skips := inferInstanceAs (Decidable (_ ∨ _))

/-- Where the next pack head lies. The end of the ring is skipped only where the tail is behind it. -/
def Queue.packStart (queue : Queue) : Option UInt32 :=
  if queue.Skips then
    if queue.header.tail.toNat < queue.header.head.toNat then some 0 else none
  else some queue.header.head

/-- A pack head that is taken for a transfer of no more than is occupied. -/
def Queue.Transfer (queue : Queue) (start : UInt32) : Prop :=
  (ChannelPackHead.read queue.buff start.toNat).cmd = kChannelCmdTransfer ∧
    48 + (ChannelPackHead.read queue.buff start.toNat).alignBodyLen.toNat
      ≤ gap queue.header.capacity.toNat start.toNat queue.header.tail.toNat

instance (queue : Queue) (start : UInt32) : Decidable (queue.Transfer start) :=
  inferInstanceAs (Decidable (_ ∧ _))

/-- Such a head tells the truth: the body is no longer than its aligned length, and where the occupied
region goes around the end of the ring, the body does not. -/
def Queue.HeadsTrue (queue : Queue) : Prop :=
  ∀ start, queue.packStart = some start → queue.Transfer start →
    (ChannelPackHead.read queue.buff start.toNat).bodyLen.toNat
      ≤ (ChannelPackHead.read queue.buff start.toNat).alignBodyLen.toNat ∧
    (queue.header.tail.toNat < start.toNat → start.toNat + 48
      + (ChannelPackHead.read queue.buff start.toNat).bodyLen.toNat ≤ queue.header.capacity.toNat)

/-! ### Which contents are accepted -/

section Accept

variable {capacity : UInt32} {queue : Queue} (small : capacity.toNat ≤ 2 ^ 31)
  (positions : Positions capacity queue)

include small positions

/-- The first half of `GetNextPack`. -/
theorem seek_eq (apart : queue.header.tail ≠ queue.header.head) :
    seek queue.header.capacity queue.buff queue.header.head queue.header.tail
      = match queue.packStart with
        | none => .error .kChanPackInvalid
        | some start => .ok start := by
  obtain ⟨rfl, headLt, tailLt⟩ := positions
  have apart' : queue.header.tail.toNat ≠ queue.header.head.toNat := fun same =>
    apart (UInt32.toNat_inj.mp same)
  have toEnd : (queue.header.capacity - queue.header.head).toNat
      = queue.header.capacity.toNat - queue.header.head.toNat := by
    rw [UInt32.toNat_sub]
    omega
  have skipped : (if allocSize queue.header.capacity queue.header.head queue.header.tail
      < queue.header.capacity - queue.header.head then .error .kChanPackInvalid else .ok 0
        : Except Err UInt32)
      = match (if queue.header.tail.toNat < queue.header.head.toNat then some 0 else none) with
        | none => .error .kChanPackInvalid
        | some start => .ok start := by
    have alloc := allocSize_eq small headLt tailLt
    rcases Nat.lt_or_ge queue.header.tail.toNat queue.header.head.toNat with order | order
    · rw [gap_of_lt order headLt] at alloc
      rw [if_pos order, if_neg (UInt32.lt_iff_toNat_lt.not.mpr (by omega))]
    · rw [gap_of_le order tailLt] at alloc
      rw [if_neg (Nat.not_lt.mpr order), if_pos (UInt32.lt_iff_toNat_lt.mpr (by omega))]
  have near : queue.header.capacity - queue.header.head < kPackHeadSize
      ↔ queue.header.capacity.toNat - queue.header.head.toNat < 48 := by
    rw [UInt32.lt_iff_toNat_lt, toEnd, toNat_kPackHeadSize]
  unfold seek
  dsimp only
  rw [skipped]
  by_cases short : queue.header.capacity.toNat - queue.header.head.toNat < 48
  · have start : queue.packStart = _ := if_pos (Or.inl short)
    rw [if_pos (near.mpr short), start]
  · rw [if_neg (near.not.mpr short)]
    by_cases holder : (ChannelPackHead.read queue.buff queue.header.head.toNat).cmd
        = kChannelCmdPlaceHolder
    · have start : queue.packStart = _ := if_pos (Or.inr holder)
      rw [if_pos holder, start]
    · have start : queue.packStart = _ := if_neg (not_or.mpr ⟨short, holder⟩)
      rw [if_neg holder, start]

omit small in
theorem packStart_lt {start : UInt32} (found : queue.packStart = some start) :
    start.toNat < capacity.toNat := by
  have headLt := positions.headLt
  unfold Queue.packStart at found
  split_ifs at found
  · cases found
    exact (Nat.zero_le _).trans_lt headLt
  · cases found
    exact headLt

/-- The second half of `GetNextPack`. -/
theorem checkPack_eq {start : UInt32} (startLt : start.toNat < capacity.toNat) :
    checkPack queue.header.capacity (ChannelPackHead.read queue.buff start.toNat) start
        queue.header.tail
      = if (ChannelPackHead.read queue.buff start.toNat).cmd ≠ kChannelCmdTransfer then
          .error .kUnexpect
        else if queue.Transfer start then .ok ⟨start, kPackHeadSize
          + (ChannelPackHead.read queue.buff start.toNat).alignBodyLen.toUInt32,
          ChannelPackHead.read queue.buff start.toNat⟩
        else .error .kChanPackInvalid := by
  obtain ⟨rfl, headLt, tailLt⟩ := positions
  have size := (ChannelPackHead.read queue.buff start.toNat).alignBodyLen.toNat_lt
  have fits : kPackHeadSize + (ChannelPackHead.read queue.buff start.toNat).alignBodyLen.toUInt32
      > allocSize queue.header.capacity start queue.header.tail ↔
        ¬ 48 + (ChannelPackHead.read queue.buff start.toNat).alignBodyLen.toNat
          ≤ gap queue.header.capacity.toNat start.toNat queue.header.tail.toNat := by
    rw [gt_iff_lt, UInt32.lt_iff_toNat_lt, allocSize_eq small startLt tailLt, UInt32.toNat_add,
      UInt16.toNat_toUInt32, toNat_kPackHeadSize]
    omega
  unfold checkPack
  dsimp only
  by_cases cmd : (ChannelPackHead.read queue.buff start.toNat).cmd ≠ kChannelCmdTransfer
  · rw [if_pos cmd, if_pos cmd]
  · rw [if_neg cmd, if_neg cmd]
    by_cases room : 48 + (ChannelPackHead.read queue.buff start.toNat).alignBodyLen.toNat
        ≤ gap queue.header.capacity.toNat start.toNat queue.header.tail.toNat
    · rw [if_neg (fits.not.mpr (not_not.mpr room)), if_pos ⟨not_not.mp cmd, room⟩]
    · rw [if_pos (fits.mpr room), if_neg fun transfer => room transfer.2]

/-- **What `GetNextPack` returns**, whatever the ring holds. -/
theorem nextPack_eq : queue.nextPack =
    if queue.header.tail = queue.header.head then .error .kChanEmpty
    else match queue.packStart with
      | none => .error .kChanPackInvalid
      | some start =>
        if (ChannelPackHead.read queue.buff start.toNat).cmd ≠ kChannelCmdTransfer then
          .error .kUnexpect
        else if queue.Transfer start then .ok ⟨start, kPackHeadSize
          + (ChannelPackHead.read queue.buff start.toNat).alignBodyLen.toUInt32,
          ChannelPackHead.read queue.buff start.toNat⟩
        else .error .kChanPackInvalid := by
  unfold Queue.nextPack getNextPack
  by_cases same : queue.header.tail = queue.header.head
  · rw [if_pos same, if_pos same]
  · rw [if_neg same, if_neg same, seek_eq small positions same]
    cases found : queue.packStart with
    | none => rfl
    | some start => exact checkPack_eq small positions (packStart_lt positions found)

/-- **Which contents are accepted.** -/
theorem nextPack_eq_ok_iff (pack : NextPack) : queue.nextPack = .ok pack ↔
    ∃ start, queue.packStart = some start ∧ queue.Transfer start ∧
      pack = ⟨start, kPackHeadSize
        + (ChannelPackHead.read queue.buff start.toNat).alignBodyLen.toUInt32,
        ChannelPackHead.read queue.buff start.toNat⟩ := by
  rw [nextPack_eq small positions]
  constructor
  · intro accepted
    split_ifs at accepted with same
    cases found : queue.packStart with
    | none =>
      rw [found] at accepted
      cases accepted
    | some start =>
      rw [found] at accepted
      dsimp only at accepted
      split_ifs at accepted with cmd transfer
      cases accepted
      exact ⟨start, rfl, transfer, rfl⟩
  · rintro ⟨start, found, transfer, rfl⟩
    have apart : queue.header.tail ≠ queue.header.head := by
      intro same
      have room := transfer.2
      unfold Queue.packStart at found
      rw [same, if_neg (Nat.lt_irrefl _)] at found
      split_ifs at found
      cases found
      rw [same, gap_self (positions.ring ▸ positions.headLt)] at room
      omega
    rw [if_neg apart, found]
    dsimp only
    rw [if_neg (not_not.mpr transfer.1), if_pos transfer]

theorem nextPack_error {err : Err} (refused : queue.nextPack = .error err) :
    err = .kChanEmpty ∨ err = .kChanPackInvalid ∨ err = .kUnexpect := by
  rw [nextPack_eq small positions] at refused
  split_ifs at refused with same
  · cases refused
    exact .inl rfl
  · cases found : queue.packStart with
    | none =>
      rw [found] at refused
      cases refused
      exact .inr (.inl rfl)
    | some start =>
      rw [found] at refused
      dsimp only at refused
      split_ifs at refused with cmd transfer
      · cases refused
        exact .inr (.inr rfl)
      · cases refused
        exact .inr (.inl rfl)

/-- A packet that is accepted is contained exactly when its head tells the truth. -/
theorem contained_iff {start : UInt32} (found : queue.packStart = some start)
    (transfer : queue.Transfer start) :
    Contained queue ⟨start, kPackHeadSize
        + (ChannelPackHead.read queue.buff start.toNat).alignBodyLen.toUInt32,
        ChannelPackHead.read queue.buff start.toNat⟩ ↔
      (ChannelPackHead.read queue.buff start.toNat).bodyLen.toNat
        ≤ (ChannelPackHead.read queue.buff start.toNat).alignBodyLen.toNat ∧
      (queue.header.tail.toNat < start.toNat → start.toNat + 48
        + (ChannelPackHead.read queue.buff start.toNat).bodyLen.toNat
          ≤ queue.header.capacity.toNat) := by
  have startLt := packStart_lt positions found
  obtain ⟨rfl, headLt, tailLt⟩ := positions
  have size := (ChannelPackHead.read queue.buff start.toNat).alignBodyLen.toNat_lt
  have aligned : (kPackHeadSize
      + (ChannelPackHead.read queue.buff start.toNat).alignBodyLen.toUInt32).toNat
      = 48 + (ChannelPackHead.read queue.buff start.toNat).alignBodyLen.toNat := by
    rw [UInt32.toNat_add, UInt16.toNat_toUInt32, toNat_kPackHeadSize]
    omega
  constructor
  · rintro ⟨ring, packet, _⟩
    dsimp only at packet
    rw [aligned] at packet
    exact ⟨by omega, fun _ => ring⟩
  · rintro ⟨packet, ring⟩
    refine ⟨?_, ?_, ?_⟩
    · dsimp only
      rcases Nat.lt_or_ge queue.header.tail.toNat start.toNat with order | order
      · exact ring order
      · -- the occupied region ends before the ring does
        have room := transfer.2
        rw [gap_of_le order tailLt] at room
        omega
    · dsimp only
      rw [aligned]
      omega
    · dsimp only
      rw [aligned]
      exact transfer.2

end Accept

/-! ### When the receiver is robust -/

/-- **When the receiver is robust.** For every ring of up to `2 ^ 31` bytes, every position of head and tail
and every content, the receiver is robust exactly when the head of the packet it accepts, if any, tells the
truth about its body. -/
theorem robust_iff (capacity : UInt32) (small : capacity.toNat ≤ 2 ^ 31) (queue : Queue)
    (positions : Positions capacity queue) : Robust queue ↔ queue.HeadsTrue := by
  constructor
  · rintro ⟨contained, _⟩ start found transfer
    have accepted := (nextPack_eq_ok_iff small positions _).mpr ⟨start, found, transfer, rfl⟩
    exact (contained_iff small positions found transfer).mp (contained _ accepted).1
  · intro truthful
    refine ⟨fun pack accepted => ?_, fun err refused => ?_⟩
    · obtain ⟨start, found, transfer, rfl⟩ := (nextPack_eq_ok_iff small positions pack).mp accepted
      refine ⟨(contained_iff small positions found transfer).mpr (truthful start found transfer), ?_, ?_⟩
      · rw [peek_of_ok accepted]
        rfl
      · intro len bytes received
        by_cases short : len < (ChannelPackHead.read queue.buff start.toNat).bodyLen.toUInt32
        · rw [recv_of_short accepted short] at received
          cases received
        · rw [recv_of_ok accepted short] at received
          cases received
          rfl
    · exact ⟨nextPack_error small positions refused, peek_of_error refused, drop_of_error refused,
        fun len => recv_of_error len refused⟩

/-- A ring of `1468` bytes whose first 64 bytes are occupied by a pack head with these lengths. -/
def craftedQueue (bodyLen alignBodyLen : UInt16) : Queue where
  header := { testQueue.header with tail := 64 }
  buff := write testQueue.buff (cells (span 0)
    { ChannelPackHead.new kChannelCmdTransfer (Vector.replicate 24 0) with
      bodyLen := bodyLen
      alignBodyLen := alignBodyLen }.toBytes)

/-- A body of nine bytes in sixteen. -/
theorem robust_iff_nine : Robust (craftedQueue 9 16) ↔ (craftedQueue 9 16).HeadsTrue :=
  robust_iff 1468 (by decide) (craftedQueue 9 16) ⟨by decide, by decide, by decide⟩

/-- A body of `65535` bytes in sixteen: `Peek` exposes what lies behind the ring. -/
theorem robust_fails_long : Positions 1468 (craftedQueue 65535 16) ∧
    ¬ Robust (craftedQueue 65535 16) := by
  have positions : Positions 1468 (craftedQueue 65535 16) := ⟨by decide, by decide, by decide⟩
  have head : ChannelPackHead.read (craftedQueue 65535 16).buff 0 = _ :=
    ChannelPackHead.read_write _ _ _
  have found : (craftedQueue 65535 16).packStart = some 0 := by
    refine if_neg (not_or.mpr ⟨by decide, ?_⟩)
    show (ChannelPackHead.read (craftedQueue 65535 16).buff 0).cmd ≠ _
    rw [head]
    decide
  have transfer : (craftedQueue 65535 16).Transfer 0 := by
    constructor
    · show (ChannelPackHead.read (craftedQueue 65535 16).buff 0).cmd = _
      rw [head]
      rfl
    · show 48 + (ChannelPackHead.read (craftedQueue 65535 16).buff 0).alignBodyLen.toNat ≤ _
      rw [head]
      decide
  have accepted := (nextPack_eq_ok_iff (by decide) positions _).mpr ⟨0, found, transfer, rfl⟩
  refine ⟨positions, fun robust => ?_⟩
  have inside : 0 + 48 + (ChannelPackHead.read (craftedQueue 65535 16).buff 0).bodyLen.toNat ≤ 1468 :=
    (robust.1 _ accepted).1.ring
  rw [head] at inside
  exact absurd inside (by decide)

end Yarf.Channel
