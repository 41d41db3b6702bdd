import Flowlab.Engine.IchSeek

namespace Flowlab.Engine

open Std Framework
open Flowlab.Core (Event)
open Flowlab.Replay.Itch

/-- From `p` on the file holds a message that bears an event, or the walk stops at a zero-length
frame. -/
def Yields (framing : Framing) (buf : List UInt8) (p : Nat) : Prop :=
  (∃ q ∈ (frames framing buf p).1, (frameEvent framing buf q).isSome) ∨
    frameAt framing buf (frames framing buf p).2 = .illegal

section

variable {framing : Framing} {buf : List UInt8} {p : Nat}

theorem yields_done (h : frameAt framing buf p = .done) : ¬ Yields framing buf p := by
  rw [Yields, frames_done h, h]
  simp

theorem yields_illegal (h : frameAt framing buf p = .illegal) : Yields framing buf p := by
  rw [Yields, frames_illegal h]
  exact .inr h

theorem yields_unknown (h : frameAt framing buf p = .unknown) :
    Yields framing buf p ↔ Yields framing buf (p + 1) := by
  have hnone : frameEvent framing buf p = none := by rw [frameEvent, h]
  rw [Yields, frames_unknown h, List.exists_mem_cons_iff, hnone, Yields]
  simp

theorem yields_whole {a b : Nat} (h : frameAt framing buf p = .whole a b) :
    Yields framing buf p ↔ (frameEvent framing buf p).isSome ∨ Yields framing buf b := by
  rw [Yields, frames_whole h, List.exists_mem_cons_iff, Yields, or_assoc]

end

namespace IchSource

/-- A call returns when something is left to return in front of the end. -/
theorem next_of_yields (framing : Framing) (buf : List UInt8) (p : Nat) {s : IchSource}
    (hframing : s.framing = framing) (hbuf : s.mmap = buf) (hcursor : s.cursor = p)
    (hy : Yields framing buf p) : ∃ fuel ev t, next fuel s = some (ev, t) := by
  induction p using frames_induction framing buf generalizing s with
  | done p hf => exact absurd hy (yields_done hf)
  | illegal p hf =>
    have hturn := turn_illegal (s := s) (by rw [hframing, hbuf, hcursor, hf])
    exact ⟨1, none, s, by rw [next, hturn]⟩
  | unknown p hf ih =>
    obtain ⟨u, hturn, hmoved⟩ := turn_unknown (s := s) (by rw [hframing, hbuf, hcursor, hf])
    obtain ⟨fuel, ev, t, hnext⟩ := ih (hmoved.framing.trans hframing) (hmoved.mmap.trans hbuf)
      (by rw [hmoved.cursor, hcursor]) ((yields_unknown hf).mp hy)
    exact ⟨fuel + 1, ev, t, by rw [next, hturn]; exact hnext⟩
  | whole p a b hf ih =>
    obtain ⟨u, hturn, hmoved⟩ := turn_whole (s := s) (by rw [hframing, hbuf, hcursor, hf])
    rw [hframing, hbuf, hcursor] at hturn
    rw [yields_whole hf] at hy
    cases hev : frameEvent framing buf p with
    | some ev => exact ⟨1, some ev, u, by rw [next, hturn, hev]; rfl⟩
    | none =>
      rw [hev] at hturn hy
      obtain ⟨fuel, ev, t, hnext⟩ := ih (hmoved.framing.trans hframing) (hmoved.mmap.trans hbuf)
        hmoved.cursor (by simpa using hy)
      exact ⟨fuel + 1, ev, t, by rw [next, hturn]; exact hnext⟩

/-- With nothing left to return the call runs to the end, rewinds and goes on. -/
theorem next_of_not_yields (framing : Framing) (buf : List UInt8) (p : Nat) {s : IchSource}
    (hframing : s.framing = framing) (hbuf : s.mmap = buf) (hcursor : s.cursor = p)
    (hy : ¬ Yields framing buf p) :
    ∃ t k, s.Moved t s.loopStart ∧ ∀ fuel, next (fuel + k) s = next fuel t := by
  induction p using frames_induction framing buf generalizing s with
  | done p hf =>
    have hturn := turn_done (s := s) (by rw [hframing, hbuf, hcursor, hf])
    exact ⟨s.rewind, 1, s.moved_rewind, fun fuel => by rw [next, hturn]⟩
  | illegal p hf => exact absurd (yields_illegal hf) hy
  | unknown p hf ih =>
    obtain ⟨u, hturn, hm⟩ := turn_unknown (s := s) (by rw [hframing, hbuf, hcursor, hf])
    obtain ⟨t, k, ht, hk⟩ := ih (hm.framing.trans hframing) (hm.mmap.trans hbuf)
      (by rw [hm.cursor, hcursor]) (fun h => hy ((yields_unknown hf).mpr h))
    refine ⟨t, k + 1, hm.loopStart ▸ hm.trans ht, fun fuel => ?_⟩
    rw [← Nat.add_assoc, next, hturn]
    exact hk fuel
  | whole p a b hf ih =>
    obtain ⟨u, hturn, hm⟩ := turn_whole (s := s) (by rw [hframing, hbuf, hcursor, hf])
    rw [hframing, hbuf, hcursor] at hturn
    rw [yields_whole hf, not_or] at hy
    have hev : frameEvent framing buf p = none := by simpa using hy.1
    rw [hev] at hturn
    obtain ⟨t, k, ht, hk⟩ := ih (hm.framing.trans hframing) (hm.mmap.trans hbuf) hm.cursor hy.2
    refine ⟨t, k + 1, hm.loopStart ▸ hm.trans ht, fun fuel => ?_⟩
    rw [← Nat.add_assoc, next, hturn]
    exact hk fuel

/-- Nothing to return in front of the end, nor behind a rewind. -/
structure Spins (s : IchSource) : Prop where
  here : ¬ Yields s.framing s.mmap s.cursor
  again : ¬ Yields s.framing s.mmap s.loopStart

theorem Moved.spins {s t : IchSource} {q : Nat} (h : s.Spins) (hm : s.Moved t q)
    (hq : ¬ Yields s.framing s.mmap q) : t.Spins :=
  ⟨by rw [hm.framing, hm.mmap, hm.cursor]; exact hq,
    by rw [hm.framing, hm.mmap, hm.loopStart]; exact h.again⟩

theorem spins_turn {s : IchSource} (h : s.Spins) :
    ∃ t, (s.turn = .rewound t ∨ s.turn = .skipped t) ∧ t.Spins := by
  cases hf : frameAt s.framing s.mmap s.cursor with
  | done => exact ⟨s.rewind, .inl (turn_done hf), s.moved_rewind.spins h h.again⟩
  | illegal => exact absurd (yields_illegal hf) h.here
  | unknown =>
    obtain ⟨t, hturn, hm⟩ := turn_unknown hf
    exact ⟨t, .inr hturn, hm.spins h (fun hy => h.here ((yields_unknown hf).mpr hy))⟩
  | whole a b =>
    obtain ⟨t, hturn, hm⟩ := turn_whole hf
    have hy := h.here
    rw [yields_whole hf, not_or] at hy
    have hev : frameEvent s.framing s.mmap s.cursor = none := by simpa using hy.1
    rw [hev] at hturn
    exact ⟨t, .inr hturn, hm.spins h hy.2⟩

/-- Such a call never returns. -/
theorem next_spins (fuel : Nat) {s : IchSource} (h : s.Spins) : next fuel s = none := by
  induction fuel generalizing s with
  | zero => rfl
  | succ fuel ih =>
    obtain ⟨t, hturn, ht⟩ := spins_turn h
    rw [next]
    rcases hturn with hturn | hturn <;> rw [hturn] <;> exact ih ht

/-- A call of `next` on `s` returns and leaves `t`. -/
def Called (s t : IchSource) : Prop := ∃ fuel ev, next fuel s = some (ev, t)

theorem called_turns {s t : IchSource} (h : s.Called t) : Relation.ReflTransGen Turns s t := by
  obtain ⟨fuel, ev, h⟩ := h
  induction fuel generalizing s with
  | zero => cases h
  | succ fuel ih =>
    rw [next] at h
    cases hturn : s.turn with
    | panicked p => simp [hturn] at h
    | rewound u =>
      rw [hturn] at h
      exact .head (by rw [Turns, hturn]; rfl) (ih h)
    | skipped u =>
      rw [hturn] at h
      exact .head (by rw [Turns, hturn]; rfl) (ih h)
    | returned r u =>
      rw [hturn] at h
      obtain ⟨-, rfl⟩ := Prod.mk.inj (Option.some.inj h)
      exact .single (by rw [Turns, hturn]; rfl)

/-- What a call finds behind a rewind is enough for it to return, wherever it begins. -/
theorem next_of_loop {s : IchSource} (h : Yields s.framing s.mmap s.loopStart) :
    ∃ fuel ev t, next fuel s = some (ev, t) := by
  by_cases hy : Yields s.framing s.mmap s.cursor
  · exact next_of_yields s.framing s.mmap s.cursor rfl rfl rfl hy
  · obtain ⟨t, k, hm, hk⟩ := next_of_not_yields s.framing s.mmap s.cursor rfl rfl rfl hy
    obtain ⟨fuel, ev, u, hnext⟩ :=
      next_of_yields s.framing s.mmap s.loopStart hm.framing hm.mmap hm.cursor h
    exact ⟨fuel + k, ev, u, by rw [hk, hnext]⟩

end IchSource

/-- Every call of `next` returns exactly when the file, from where playback begins, holds a message
that bears an event or stops at a zero-length frame. -/
theorem next_returns_iff {mmap : List UInt8} (h : mmap ≠ []) (pace : Pace) (framing : Framing)
    (startAtNs : Option UInt64) :
    ∃ s, IchSource.openWith mmap pace framing startAtNs = .ok (.ok s) ∧
      ((∀ t, Relation.ReflTransGen IchSource.Called s t →
          ∃ fuel ev u, IchSource.next fuel t = some (ev, u)) ↔
        Yields framing mmap (startsAt framing mmap startAtNs)) := by
  obtain ⟨s, hopen, rfl, rfl, hcur, hloop⟩ := IchSource.openWith_eq h pace framing startAtNs
  refine ⟨s, hopen, ?_⟩
  rw [← hloop]
  constructor
  · intro hall
    by_contra hno
    obtain ⟨fuel, ev, u, hnext⟩ := hall s .refl
    have hspin : s.Spins := ⟨by rw [hcur, ← hloop]; exact hno, hno⟩
    rw [IchSource.next_spins fuel hspin] at hnext
    cases hnext
  · intro hy t hcalls
    have hturns : Relation.ReflTransGen IchSource.Turns s t := by
      induction hcalls with
      | refl => exact .refl
      | tail _ hcall ih => exact ih.trans (IchSource.called_turns hcall)
    obtain ⟨q, hm⟩ := IchSource.run_moved hturns
    exact IchSource.next_of_loop (by rw [hm.framing, hm.mmap, hm.loopStart]; exact hy)

/-- One delete is played over and over. -/
theorem next_returns_iff_delete :
    ∃ s, IchSource.openWith (deleteAt 5) .asFastAsPossible .unframed none = .ok (.ok s) ∧
      ((∀ t, Relation.ReflTransGen IchSource.Called s t →
          ∃ fuel ev u, IchSource.next fuel t = some (ev, u)) ↔
        Yields .unframed (deleteAt 5) (startsAt .unframed (deleteAt 5) none)) :=
  next_returns_iff (by decide) .asFastAsPossible .unframed none

/-- On a file of one byte that begins no message the first call never returns. -/
theorem next_never_returns :
    ∃ s, IchSource.openWith [90] .asFastAsPossible .unframed none = .ok (.ok s) ∧
      ∀ fuel, IchSource.next fuel s = none := by
  obtain ⟨s, hopen, hbuf, hframing, hcur, hloop⟩ :=
    IchSource.openWith_eq (List.cons_ne_nil 90 []) .asFastAsPossible .unframed none
  have hno : ¬ Yields .unframed [90] 0 := by
    rw [Yields]
    decide
  refine ⟨s, hopen, fun fuel => IchSource.next_spins fuel ⟨?_, ?_⟩⟩
  · rw [hbuf, hframing, hcur]
    exact hno
  · rw [hbuf, hframing, hloop]
    exact hno

end Flowlab.Engine
