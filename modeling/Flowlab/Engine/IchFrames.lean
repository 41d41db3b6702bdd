import Flowlab.Engine.Ich

namespace Flowlab.Engine

open Std Framework
open Flowlab.Core (Event)
open Flowlab.Replay.Itch

/-- What stands at an offset of a file: its end or a truncated frame, a zero-length frame, a byte
that begins no message, or a whole message. -/
inductive Frame
  | done
  | illegal
  | unknown
  | whole (bodyStart bodyEnd : Nat)
  deriving DecidableEq, Repr

def frameAt (framing : Framing) (buf : List UInt8) (p : Nat) : Frame :=
  match framing with
  | .unframed =>
    let len := msgLength (buf.getD p 0)
    if buf.length ≤ p then .done
    else if len = 0 then .unknown
    else if buf.length < p + len then .done
    else .whole p (p + len)
  | .binaryFile =>
    let len := Bytes.ofBe (Bytes.slice buf p 2)
    if buf.length < p + 2 then .done
    else if len = 0 then .illegal
    else if buf.length < p + 2 + len then .done
    else .whole (p + 2) (p + 2 + len)

/-- The frame at `p`, and the offset behind it. -/
def readFrame (framing : Framing) (buf : List UInt8) (p : Nat) : Option (Nat × Nat) :=
  match frameAt framing buf p with
  | .unknown => some (p, p + 1)
  | .whole _ bodyEnd => some (p, bodyEnd)
  | _ => none

/-- Where the frames from `p` on begin, and where they stop. -/
def frames (framing : Framing) (buf : List UInt8) (p : Nat) : List Nat × Nat :=
  drain (readFrame framing buf) (buf.length - p) p

/-- The event of the frame at `p`: in a length-prefixed file the body must have the length that its
type prescribes. -/
def frameEvent (framing : Framing) (buf : List UInt8) (p : Nat) : Option Event :=
  match frameAt framing buf p with
  | .whole bodyStart bodyEnd =>
    if msgLength (buf.getD bodyStart 0) = bodyEnd - bodyStart then
      eventAt (fun i => buf.getD i 0) bodyStart
    else none
  | _ => none

/-- A whole message of at least 11 bytes stamped `targetNs` or later. -/
def timely (framing : Framing) (buf : List UInt8) (targetNs : UInt64) (p : Nat) : Bool :=
  match frameAt framing buf p with
  | .whole bodyStart bodyEnd =>
    decide (bodyStart + 11 ≤ bodyEnd ∧ targetNs ≤ ts48At (fun i => buf.getD i 0) (bodyStart + 5))
  | _ => false

section

variable {framing : Framing} {buf : List UInt8} {p : Nat}

theorem frameAt_whole {a b : Nat} (h : frameAt framing buf p = .whole a b) :
    p ≤ a ∧ a < b ∧ b ≤ buf.length ∧ parkAt framing a = p := by
  cases framing with
  | unframed =>
    simp only [frameAt] at h
    split_ifs at h
    obtain ⟨rfl, rfl⟩ := Frame.whole.inj h
    exact ⟨le_rfl, by omega, by omega, rfl⟩
  | binaryFile =>
    simp only [frameAt] at h
    split_ifs at h
    obtain ⟨rfl, rfl⟩ := Frame.whole.inj h
    exact ⟨by omega, by omega, by omega, rfl⟩

theorem frameAt_unknown (h : frameAt framing buf p = .unknown) :
    framing = .unframed ∧ p < buf.length ∧ msgLength (buf.getD p 0) = 0 := by
  cases framing with
  | unframed =>
    simp only [frameAt] at h
    split_ifs at h with hend hlen
    exact ⟨rfl, Nat.lt_of_not_le hend, hlen⟩
  | binaryFile =>
    simp only [frameAt] at h
    split_ifs at h

theorem readFrame_some {x q : Nat} (h : readFrame framing buf p = some (x, q)) :
    x = p ∧ p < q ∧ q ≤ buf.length := by
  simp only [readFrame] at h
  split at h
  · rename_i hf
    obtain ⟨rfl, rfl⟩ := Prod.mk.inj (Option.some.inj h)
    obtain ⟨-, hlt, -⟩ := frameAt_unknown hf
    exact ⟨rfl, by omega, hlt⟩
  · rename_i a b hf
    obtain ⟨rfl, rfl⟩ := Prod.mk.inj (Option.some.inj h)
    obtain ⟨hpa, hab, hlen, -⟩ := frameAt_whole hf
    exact ⟨rfl, by omega, hlen⟩
  · cases h

theorem advances_readFrame : Drain.Advances (readFrame framing buf) buf.length :=
  fun _ _ _ h => (readFrame_some h).2

theorem frames_none (h : readFrame framing buf p = none) : frames framing buf p = ([], p) :=
  Drain.drain_none h _

theorem frames_some {x q : Nat} (h : readFrame framing buf p = some (x, q)) :
    frames framing buf p = (p :: (frames framing buf q).1, (frames framing buf q).2) := by
  obtain ⟨rfl, -⟩ := readFrame_some h
  exact Drain.offsets_some advances_readFrame h

/-- To prove something of every offset, take the file frame by frame. -/
theorem frames_induction (framing : Framing) (buf : List UInt8) {P : Nat → Prop}
    (done : ∀ p, frameAt framing buf p = .done → P p)
    (illegal : ∀ p, frameAt framing buf p = .illegal → P p)
    (unknown : ∀ p, frameAt framing buf p = .unknown → P (p + 1) → P p)
    (whole : ∀ p a b, frameAt framing buf p = .whole a b → P b → P p) (p : Nat) : P p := by
  induction p using Drain.offsets_induction (@advances_readFrame framing buf) with
  | hnone p h =>
    cases hf : frameAt framing buf p with
    | done => exact done p hf
    | illegal => exact illegal p hf
    | unknown => simp [readFrame, hf] at h
    | whole a b => simp [readFrame, hf] at h
  | hsome p x q h ih =>
    cases hf : frameAt framing buf p with
    | done => simp [readFrame, hf] at h
    | illegal => simp [readFrame, hf] at h
    | unknown =>
      obtain ⟨-, rfl⟩ : x = p ∧ p + 1 = q := by simpa [readFrame, hf, eq_comm] using h
      exact unknown p hf ih
    | whole a b =>
      obtain ⟨-, rfl⟩ : x = p ∧ b = q := by simpa [readFrame, hf, eq_comm] using h
      exact whole p a b hf ih

/-! The walk, frame by frame. -/

theorem frames_done (h : frameAt framing buf p = .done) : frames framing buf p = ([], p) :=
  frames_none (by rw [readFrame, h])

theorem frames_illegal (h : frameAt framing buf p = .illegal) : frames framing buf p = ([], p) :=
  frames_none (by rw [readFrame, h])

theorem frames_unknown (h : frameAt framing buf p = .unknown) : frames framing buf p =
    (p :: (frames framing buf (p + 1)).1, (frames framing buf (p + 1)).2) :=
  frames_some (x := p) (by rw [readFrame, h])

theorem frames_whole {a b : Nat} (h : frameAt framing buf p = .whole a b) : frames framing buf p =
    (p :: (frames framing buf b).1, (frames framing buf b).2) :=
  frames_some (x := p) (by rw [readFrame, h])

/-- The walk from one of its frames on is the rest of the walk. -/
theorem frames_split {q : Nat} (hq : q ∈ (frames framing buf p).1) :
    (frames framing buf p).2 = (frames framing buf q).2 ∧
      ∃ pre, (frames framing buf p).1 = pre ++ (frames framing buf q).1 ∧ ∀ r ∈ pre, r < q := by
  obtain ⟨hstop, -, hpre⟩ :=
    Drain.offsets_split advances_readFrame (fun _ _ _ h => (readFrame_some h).1) hq
  exact ⟨hstop, hpre⟩

theorem frames_le {q : Nat} (hq : q ∈ (frames framing buf p).1) : p ≤ q :=
  (Drain.offsets_split advances_readFrame (fun _ _ _ h => (readFrame_some h).1) hq).2.1

/-! The bytes of a whole message. -/

theorem range_buf {a b : Nat} (hab : a ≤ b) (hb : b ≤ buf.length) :
    range buf a b = .ok (window (fun i => buf.getD i 0) a (b - a)) := by
  rw [range, if_pos hb, slice_window (by omega)]

end

/-- No index of `parse_stock_directory` is out of range. -/
theorem parseStockDirectory_ok (m : List UInt8) : ∃ r, parseStockDirectory m = .ok r := by
  rw [← window_getD m]
  generalize (fun i => m.getD i 0) = mem
  rw [parseStockDirectory, length_window]
  split_ifs with hlen
  · exact ⟨_, rfl⟩
  · rw [index_window mem (by omega)]
    show ∃ r, (if Char.ofNat (mem (0 + 0)).toNat ≠ 'R' then _ else _) = Except.ok r
    split_ifs
    · exact ⟨_, rfl⟩
    · rw [rdU16_window mem (by omega), range, if_pos (by rw [length_window]; omega)]
      exact ⟨_, rfl⟩

theorem harvest_ok (ty : Option UInt8) (m : List UInt8) (symbols : Symbols) :
    ∃ r, harvest ty m symbols = .ok r := by
  obtain ⟨r, hr⟩ := parseStockDirectory_ok m
  rw [harvest, hr]
  split_ifs
  · cases r with
    | none => exact ⟨_, rfl⟩
    | some pair => exact ⟨_, rfl⟩
  · exact ⟨symbols, rfl⟩

theorem reaches_window (targetNs : UInt64) (mem : Nat → UInt8) (a n : Nat) :
    reaches targetNs (window mem a n) =
      .ok (decide (11 ≤ n ∧ targetNs ≤ ts48At mem (a + 5))) := by
  rw [reaches, length_window]
  split_ifs with hlen
  · rw [rdTs48_window mem (by omega)]
    simp [hlen]
  · simp [hlen]
    rfl

namespace IchSource

/-- `t` reads the same file as `s` and stands at `q`. -/
structure Moved (s t : IchSource) (q : Nat) : Prop where
  mmap : t.mmap = s.mmap
  framing : t.framing = s.framing
  loopStart : t.loopStart = s.loopStart
  cursor : t.cursor = q

theorem Moved.trans {s t u : IchSource} {q r : Nat} (ht : s.Moved t q) (hu : t.Moved u r) :
    s.Moved u r :=
  ⟨hu.mmap.trans ht.mmap, hu.framing.trans ht.framing, hu.loopStart.trans ht.loopStart, hu.cursor⟩

theorem moved_rewind (s : IchSource) : s.Moved s.rewind s.loopStart := ⟨rfl, rfl, rfl, rfl⟩

theorem moved_paceTo (s : IchSource) (eventNs : UInt64) (speedup : Rounding.Fp) :
    s.Moved (s.paceTo eventNs speedup).1 s.cursor := by
  rw [paceTo]
  split
  · exact ⟨rfl, rfl, rfl, rfl⟩
  · split_ifs <;> exact ⟨rfl, rfl, rfl, rfl⟩

/-- A turn that ends with the message `ev` or without one. -/
def found (ev : Option Event) (t : IchSource) : Turn :=
  match ev with
  | some e => .returned (some e) t
  | none => .skipped t

theorem deliver_window (s : IchSource) {mem : Nat → UInt8} {a : Nat} (h : msgLength (mem a) ≠ 0) :
    ∃ t, s.deliver (window mem a (msgLength (mem a))) = found (eventAt mem a) t ∧
      s.Moved t s.cursor := by
  rw [deliver, dispatch_window h]
  cases eventAt mem a with
  | some ev =>
    cases hp : s.pace with
    | asFastAsPossible => exact ⟨s, rfl, rfl, rfl, rfl, rfl⟩
    | realtime speedup => exact ⟨_, rfl, s.moved_paceTo ev.ts speedup⟩
  | none =>
    obtain ⟨symbols, hs⟩ := harvest_ok (window mem a (msgLength (mem a))).head?
      (window mem a (msgLength (mem a))) s.symbols
    simp only [hs]
    exact ⟨_, rfl, rfl, rfl, rfl, rfl⟩

/-! What one turn does, by the frame it meets. -/

variable {s : IchSource}

theorem turn_done (h : frameAt s.framing s.mmap s.cursor = .done) : s.turn = .rewound s.rewind := by
  cases hf : s.framing with
  | unframed =>
    simp only [hf, frameAt] at h
    simp only [turn, hf]
    split_ifs at h with hend hlen hcut
    · rw [if_pos hend]
    · rw [if_neg hend, if_neg hlen, if_pos hcut]
  | binaryFile =>
    simp only [hf, frameAt] at h
    simp only [turn, hf]
    split_ifs at h with hend hlen hcut
    · rw [if_pos hend]
    · rw [if_neg hend, if_neg hlen, if_pos hcut]

theorem turn_illegal (h : frameAt s.framing s.mmap s.cursor = .illegal) :
    s.turn = .returned none s := by
  cases hf : s.framing with
  | unframed =>
    simp only [hf, frameAt] at h
    split_ifs at h
  | binaryFile =>
    simp only [hf, frameAt] at h
    simp only [turn, hf]
    split_ifs at h with hend hlen
    rw [if_neg hend, if_pos hlen]

theorem turn_unknown (h : frameAt s.framing s.mmap s.cursor = .unknown) :
    ∃ t, s.turn = .skipped t ∧ s.Moved t (s.cursor + 1) := by
  obtain ⟨hf, hlt, hlen⟩ := frameAt_unknown h
  simp only [turn, hf]
  rw [if_neg (by omega), if_pos hlen]
  exact ⟨_, rfl, rfl, hf.symm, rfl, rfl⟩

theorem turn_whole {a b : Nat} (h : frameAt s.framing s.mmap s.cursor = .whole a b) :
    ∃ t, s.turn = found (frameEvent s.framing s.mmap s.cursor) t ∧ s.Moved t b := by
  rw [frameEvent, h]
  cases hf : s.framing with
  | unframed =>
    simp only [hf, frameAt] at h
    simp only [turn, hf]
    split_ifs at h with hend hlen hcut
    obtain ⟨rfl, rfl⟩ := Frame.whole.inj h
    rw [if_neg hend, if_neg hlen, if_neg hcut, slice_window (by omega),
      if_pos (by omega : msgLength (s.mmap.getD s.cursor 0) = _)]
    obtain ⟨t, ht, hm⟩ := @deliver_window _ (fun i => s.mmap.getD i 0) s.cursor hlen
    exact ⟨t, ht, hm.mmap, hm.framing.trans hf.symm, hm.loopStart, hm.cursor⟩
  | binaryFile =>
    simp only [hf, frameAt] at h
    simp only [turn, hf]
    split_ifs at h with hend hlen hcut
    obtain ⟨rfl, rfl⟩ := Frame.whole.inj h
    rw [if_neg hend, if_neg hlen, if_neg hcut, Nat.add_sub_cancel_left]
    split_ifs with hother hsame hsame
    · omega
    · exact ⟨_, rfl, rfl, hf.symm, rfl, rfl⟩
    · rw [← hsame, slice_window (p := s.cursor + 2) (by omega)]
      obtain ⟨t, ht, hm⟩ := @deliver_window _ (fun i => s.mmap.getD i 0) (s.cursor + 2) (by omega)
      exact ⟨t, ht, hm.mmap, hm.framing.trans hf.symm, hm.loopStart, hm.cursor⟩
    · omega

/-- Only at the end of the file or in front of a truncated frame does a turn rewind. -/
theorem turn_rewound {t : IchSource} (h : s.turn = .rewound t) :
    t = s.rewind ∧ frameAt s.framing s.mmap s.cursor = .done := by
  cases hf : frameAt s.framing s.mmap s.cursor with
  | done =>
    rw [turn_done hf] at h
    exact ⟨(Turn.rewound.inj h).symm, rfl⟩
  | illegal =>
    rw [turn_illegal hf] at h
    cases h
  | unknown =>
    obtain ⟨u, hu, -⟩ := turn_unknown hf
    rw [hu] at h
    cases h
  | whole a b =>
    obtain ⟨u, hu, -⟩ := turn_whole hf
    rw [hu] at h
    cases hev : frameEvent s.framing s.mmap s.cursor with
    | none => simp [found, hev] at h
    | some ev => simp [found, hev] at h

end IchSource

end Flowlab.Engine
