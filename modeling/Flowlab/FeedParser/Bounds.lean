import Flowlab.FeedParser.Itch
import Flowlab.Framework.Tagged

namespace Flowlab.FeedParser

open Framework Access

/-- How far from its type byte the fields of a message reach that `dispatch` reads. -/
def fieldEnd (t : UInt8) : Nat :=
  match Char.ofNat t.toNat with
  | 'A' | 'F' => 36
  | 'D' => 19
  | 'X' => 23
  | 'E' | 'C' => 23
  | 'P' => 36
  | _ => 1

section

variable (mem : Nat → UInt8) (n p : Nat)

theorem cells_below (w : Nat) : Within mem (· < n) (cells p (w + 1)) ↔ p + w < n := by
  rw [within_cells]
  constructor
  · intro h
    exact h w (Nat.lt_succ_self w)
  · intro h i hi
    omega

@[simp] theorem rdU16_below : Within mem (· < n) (rdU16 p) ↔ p + 1 < n := by
  rw [rdU16, within_bind, cells_below, and_iff_left (within_pure _ _ _)]

@[simp] theorem rdU32_below : Within mem (· < n) (rdU32 p) ↔ p + 3 < n := by
  rw [rdU32, within_bind, cells_below, and_iff_left (within_pure _ _ _)]

@[simp] theorem rdU64_below : Within mem (· < n) (rdU64 p) ↔ p + 7 < n := by
  rw [rdU64, within_bind, cells_below, and_iff_left (within_pure _ _ _)]

@[simp] theorem rdTs48_below : Within mem (· < n) (rdTs48 p) ↔ p + 5 < n := by
  simp only [rdTs48, within_bind, rdU16_below, rdU32_below, within_pure, and_true]
  omega

theorem parseSided_below (eventType : EventType) :
    Within mem (· < n) (parseSided eventType p) ↔ p + 36 ≤ n := by
  simp only [parseSided, within_bind, rdU16_below, rdTs48_below, rdU64_below, within_cell,
    rdU32_below, within_pure, and_true]
  omega

theorem parseShares_below (eventType : EventType) :
    Within mem (· < n) (parseShares eventType p) ↔ p + 23 ≤ n := by
  simp only [parseShares, within_bind, rdU16_below, rdTs48_below, rdU64_below, rdU32_below,
    within_pure, and_true]
  omega

theorem parseOrderDelete_below : Within mem (· < n) (parseOrderDelete p) ↔ p + 19 ≤ n := by
  simp only [parseOrderDelete, within_bind, rdU16_below, rdTs48_below, rdU64_below, within_pure,
    and_true]
  omega

/-- `dispatch` stays below `n` exactly when the fields of its message type do. -/
theorem dispatch_below : Within mem (· < n) (dispatch p) ↔ p + fieldEnd (mem p) ≤ n := by
  rw [dispatch, within_bind, within_cell, value_cell, fieldEnd]
  generalize Char.ofNat (mem p).toNat = c
  split <;>
    simp only [parseAddOrder, parseTrade, parseOrderCancel, parseOrderExecuted, within_bind,
      parseSided_below, parseShares_below, parseOrderDelete_below, within_pure, and_true] <;>
    omega

end

/-- A whole message holds every field `dispatch` reads of it. -/
theorem fieldEnd_le {t : UInt8} (h : msgLength t ≠ 0) : fieldEnd t ≤ msgLength t := by
  rw [msgLength] at h ⊢
  rw [fieldEnd]
  generalize Char.ofNat t.toNat = c at h ⊢
  split
  all_goals first | decide | exact Nat.pos_of_ne_zero h

theorem parseLoop_below (mem : Nat → UInt8) (rawLen outCap fuel offset : Nat)
    (out : List Core.Event) :
    Within mem (· < rawLen) (parseLoop rawLen outCap fuel offset out) := by
  induction fuel generalizing offset out with
  | zero => exact within_pure _ _ _
  | succ fuel ih =>
    rw [parseLoop]
    split_ifs with hroom
    · rw [within_bind, within_cell, value_cell]
      refine ⟨hroom.1, ?_⟩
      dsimp only
      split_ifs with hunknown hshort
      · exact within_pure _ _ _
      · exact within_pure _ _ _
      · rw [within_bind, dispatch_below]
        have hend := fieldEnd_le hunknown
        exact ⟨by omega, ih _ _⟩
    · exact within_pure _ _ _

/-- The frame whose length prefix stands at `p`, and the offset behind it. -/
def frameAt (mem : Nat → UInt8) (rawLen p : Nat) : Option (Nat × Nat) :=
  let frameLen := ((rdU16 p).value mem).toNat
  if p + 2 ≤ rawLen ∧ frameLen ≠ 0 ∧ p + 2 + frameLen ≤ rawLen then
    some (p + 2, p + 2 + frameLen)
  else none

/-- The offsets behind the length prefixes of the whole frames of a buffer. -/
def frames (mem : Nat → UInt8) (rawLen : Nat) : List Nat :=
  (drain (frameAt mem rawLen) rawLen 0).1

theorem frameAt_some {mem : Nat → UInt8} {rawLen p start next : Nat}
    (h : frameAt mem rawLen p = some (start, next)) :
    start = p + 2 ∧ next = p + 2 + ((rdU16 p).value mem).toNat ∧ p + 2 ≤ rawLen ∧
      ((rdU16 p).value mem).toNat ≠ 0 ∧ next ≤ rawLen := by
  simp only [frameAt] at h
  split_ifs at h with hframe
  obtain ⟨rfl, rfl⟩ := Prod.mk.inj (Option.some.inj h)
  exact ⟨rfl, rfl, hframe.1, hframe.2.1, hframe.2.2⟩

section

variable {mem : Nat → UInt8} {rawLen outCap fuel offset : Nat} {out : List Core.Event}

theorem parseLoopFramed_full (h : outCap ≤ out.length) :
    parseLoopFramed rawLen outCap fuel offset out = pure ⟨offset, out, out.length⟩ := by
  cases fuel with
  | zero => rfl
  | succ fuel => rw [parseLoopFramed, if_neg (by omega)]

/-- Without a whole frame the loop reads at most a length prefix. -/
theorem parseLoopFramed_none (h : frameAt mem rawLen offset = none) :
    Within mem (· < rawLen) (parseLoopFramed rawLen outCap fuel offset out) := by
  cases fuel with
  | zero => exact within_pure _ _ _
  | succ fuel =>
    rw [parseLoopFramed]
    split_ifs with hroom
    · rw [within_bind, rdU16_below]
      refine ⟨by omega, ?_⟩
      dsimp only
      split_ifs with hstop
      · exact within_pure _ _ _
      · simp only [frameAt] at h
        split_ifs at h with hframe
        exact absurd ⟨hroom.1, by omega, by omega⟩ hframe
    · exact within_pure _ _ _

/-- With room for an event, the loop reads a frame and goes on behind it. -/
theorem parseLoopFramed_some {start next : Nat} (h : frameAt mem rawLen offset = some (start, next))
    (hroom : out.length < outCap) :
    Within mem (· < rawLen) (parseLoopFramed rawLen outCap (fuel + 1) offset out) ↔
      start + fieldEnd (mem start) ≤ rawLen ∧
        Within mem (· < rawLen) (parseLoopFramed rawLen outCap fuel next
          (out ++ ((dispatch start).value mem).toList)) := by
  obtain ⟨rfl, rfl, hhead, hlen, hfits⟩ := frameAt_some h
  rw [parseLoopFramed, if_pos ⟨hhead, hroom⟩, within_bind, rdU16_below,
    and_iff_right (by omega), if_neg (by omega), within_bind, dispatch_below]

end

/-- Every frame that the loop reaches with room for an event lies inside the buffer with all the
fields of its type. -/
def FramesFit (mem : Nat → UInt8) (rawLen room : Nat) (starts : List Nat) : Prop :=
  ∀ pre start post, starts = pre ++ start :: post →
    pre.countP (fun p => bearsEvent (mem p)) < room → start + fieldEnd (mem start) ≤ rawLen

theorem parseLoopFramed_below (mem : Nat → UInt8) (rawLen outCap fuel offset : Nat)
    (out : List Core.Event) (hout : out.length ≤ outCap) :
    Within mem (· < rawLen) (parseLoopFramed rawLen outCap fuel offset out) ↔
      FramesFit mem rawLen (outCap - out.length) (drain (frameAt mem rawLen) fuel offset).1 := by
  induction fuel generalizing offset out with
  | zero => simp [parseLoopFramed, drain, FramesFit]
  | succ fuel ih =>
    cases hframe : frameAt mem rawLen offset with
    | none =>
      rw [Drain.drain_none hframe]
      refine iff_of_true (parseLoopFramed_none hframe) ?_
      simp [FramesFit]
    | some frame =>
      obtain ⟨start, next⟩ := frame
      rw [Drain.drain_some hframe, FramesFit, Tagged.forall_split_cons]
      rcases Nat.lt_or_ge out.length outCap with hroom | hfull
      · have hlen : (out ++ ((dispatch start).value mem).toList).length =
            out.length + (if bearsEvent (mem start) then 1 else 0) := by
          rw [List.length_append, ← isSome_dispatch]
          cases (dispatch start).value mem <;> simp
        have hle : (out ++ ((dispatch start).value mem).toList).length ≤ outCap := by
          rw [hlen]
          split_ifs <;> omega
        have hcount : ∀ pre : List Nat,
            pre.countP (fun p => bearsEvent (mem p)) <
                outCap - (out.length + (if bearsEvent (mem start) then 1 else 0)) ↔
              (start :: pre).countP (fun p => bearsEvent (mem p)) < outCap - out.length := by
          intro pre
          rw [List.countP_cons]
          omega
        rw [parseLoopFramed_some hframe hroom, ih next _ hle, FramesFit, hlen]
        simp only [hcount, List.countP_nil, Nat.sub_pos_of_lt hroom, forall_const]
      · rw [parseLoopFramed_full hfull, Nat.sub_eq_zero_of_le hfull]
        refine iff_of_true (within_pure _ _ _) ?_
        simp

/-- `parse_buffer` never reads past the buffer. `parse_buffer_framed` takes the length of a frame
from the input but reads the fields of its type, so it does not exactly when every frame it reaches
with room for an event lies inside the buffer with those fields. -/
theorem parsers_read_inside (mem : Nat → UInt8) (rawLen outCap : Nat) :
    Within mem (· < rawLen) (parseBuffer rawLen outCap) ∧
    (Within mem (· < rawLen) (parseBufferFramed rawLen outCap) ↔
      ∀ pre start post, frames mem rawLen = pre ++ start :: post →
        pre.countP (fun p => bearsEvent (mem p)) < outCap →
        start + fieldEnd (mem start) ≤ rawLen) :=
  ⟨parseLoop_below mem rawLen outCap rawLen 0 [],
    parseLoopFramed_below mem rawLen outCap rawLen 0 [] (Nat.zero_le _)⟩

/-- A frame of one byte at the end of the buffer: the fields of an add order lie behind it. -/
theorem framed_reads_past_end :
    ¬ Within (fun i => [0, 1, 0x41].getD i 0) (· < 3) (parseBufferFramed 3 1) := by
  intro h
  exact absurd (h 37 (by decide)) (by decide)

end Flowlab.FeedParser
