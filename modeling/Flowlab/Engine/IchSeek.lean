import Flowlab.Engine.IchFrames

namespace Flowlab.Engine

open Std Framework
open Flowlab.Core (Event)
open Flowlab.Replay.Itch

/-- The scan sees the frames that `next` sees. -/
theorem scanFrame_eq (framing : Framing) (buf : List UInt8) (p : Nat) :
    scanFrame framing buf p =
      match frameAt framing buf p with
      | .done => .stop
      | .illegal => .stop
      | .unknown => .skip (p + 1)
      | .whole a b => .body a b := by
  cases framing with
  | unframed =>
    simp only [scanFrame, frameAt]
    split_ifs <;> rfl
  | binaryFile =>
    simp only [scanFrame, frameAt]
    split_ifs <;> rfl

/-- The first timely message from `p` on, or where the frames stop. -/
def seek (framing : Framing) (buf : List UInt8) (targetNs : UInt64) (p : Nat) : Nat :=
  ((frames framing buf p).1.find? (timely framing buf targetNs)).getD (frames framing buf p).2

/-- The offset that playback begins at and rewinds to. -/
def startsAt (framing : Framing) (buf : List UInt8) : Option UInt64 → Nat
  | none => 0
  | some targetNs => seek framing buf targetNs 0

theorem scanLoop_eq (framing : Framing) (buf : List UInt8) (targetNs : UInt64) {fuel p : Nat}
    (hfuel : buf.length - p ≤ fuel) (symbols : Symbols) :
    ∃ out, scanLoop framing buf targetNs fuel p symbols =
      .ok (seek framing buf targetNs p, out) := by
  induction p using frames_induction framing buf generalizing fuel symbols with
  | done p hf =>
    rw [seek, frames_done hf]
    cases fuel with
    | zero => exact ⟨symbols, rfl⟩
    | succ fuel =>
      rw [scanLoop, scanFrame_eq, hf]
      exact ⟨symbols, rfl⟩
  | illegal p hf =>
    rw [seek, frames_illegal hf]
    cases fuel with
    | zero => exact ⟨symbols, rfl⟩
    | succ fuel =>
      rw [scanLoop, scanFrame_eq, hf]
      exact ⟨symbols, rfl⟩
  | unknown p hf ih =>
    obtain ⟨-, hlt, -⟩ := frameAt_unknown hf
    obtain ⟨fuel, rfl⟩ : ∃ k, fuel = k + 1 := ⟨fuel - 1, by omega⟩
    have hno : timely framing buf targetNs p = false := by rw [timely, hf]
    have hseek : seek framing buf targetNs p = seek framing buf targetNs (p + 1) := by
      rw [seek, frames_unknown hf, List.find?_cons_of_neg (by rw [hno]; decide)]
      rfl
    rw [scanLoop, scanFrame_eq, hf, hseek]
    exact ih (by omega) symbols
  | whole p a b hf ih =>
    obtain ⟨hpa, hab, hb, hpark⟩ := frameAt_whole hf
    obtain ⟨fuel, rfl⟩ : ∃ k, fuel = k + 1 := ⟨fuel - 1, by omega⟩
    have hyes : timely framing buf targetNs p = decide (11 ≤ b - a ∧
        targetNs ≤ ts48At (fun i => buf.getD i 0) (a + 5)) := by
      rw [timely, hf]
      exact decide_eq_decide.mpr (and_congr_left fun _ => by omega)
    obtain ⟨symbols', hs⟩ := harvest_ok (some (buf.getD (a + 0) 0))
      (window (fun i => buf.getD i 0) a (b - a)) symbols
    rw [scanLoop, scanFrame_eq, hf]
    simp only [range_buf hab.le hb, index_window (fun i => buf.getD i 0) (by omega : 0 < b - a),
      reaches_window, hs, bind, Except.bind, ← hyes]
    rw [seek, frames_whole hf]
    cases ht : timely framing buf targetNs p with
    | true =>
      rw [List.find?_cons_of_pos ht, hpark]
      exact ⟨symbols', rfl⟩
    | false =>
      rw [List.find?_cons_of_neg (by rw [ht]; decide)]
      exact ih (by omega) symbols'

namespace IchSource

/-- A file with a byte in it opens, and stands where playback begins. -/
theorem openWith_eq {mmap : List UInt8} (h : mmap ≠ []) (pace : Pace) (framing : Framing)
    (startAtNs : Option UInt64) :
    ∃ s, openWith mmap pace framing startAtNs = .ok (.ok s) ∧ s.mmap = mmap ∧
      s.framing = framing ∧ s.cursor = startsAt framing mmap startAtNs ∧
      s.loopStart = startsAt framing mmap startAtNs := by
  have hne : mmap.isEmpty = false := List.isEmpty_eq_false_iff.mpr h
  cases startAtNs with
  | none =>
    simp only [openWith, hne]
    exact ⟨_, rfl, rfl, rfl, rfl, rfl⟩
  | some targetNs =>
    obtain ⟨symbols, hscan⟩ := scanLoop_eq framing mmap targetNs (Nat.sub_le mmap.length 0) ∅
    simp only [openWith, hne, hscan]
    exact ⟨_, rfl, rfl, rfl, rfl, rfl⟩

/-- The calls of `next` in a row up to the first rewind or the first `None`: the events they return,
each with the offset of its frame, and the source then. -/
def pass : Nat → IchSource → Option (List (Nat × Event) × IchSource)
  | 0, _ => none
  | fuel + 1, s =>
    match s.turn with
    | .panicked _ => none
    | .rewound t => some ([], t)
    | .skipped t => pass fuel t
    | .returned none t => some ([], t)
    | .returned (some ev) t => (pass fuel t).map (fun r => ((s.cursor, ev) :: r.1, r.2))

/-- The first event of a pass is what the call of `next` returns, and the rest is the pass from
there. -/
theorem pass_next {fuel : Nat} {s t : IchSource} {q : Nat} {ev : Event} {evs : List (Nat × Event)}
    (h : pass fuel s = some ((q, ev) :: evs, t)) :
    ∃ u n, next fuel s = some (some ev, u) ∧ pass n u = some (evs, t) := by
  induction fuel generalizing s with
  | zero => cases h
  | succ fuel ih =>
    rw [pass] at h
    rw [next]
    cases ht : s.turn with
    | panicked p => simp [ht] at h
    | rewound u => simp [ht] at h
    | skipped u =>
      rw [ht] at h
      exact ih h
    | returned r u =>
      rw [ht] at h
      cases r with
      | none => cases h
      | some e =>
        obtain ⟨r, hr, heq⟩ := Option.map_eq_some_iff.mp h
        obtain ⟨hcons, rfl⟩ := Prod.mk.inj heq
        obtain ⟨hhead, rfl⟩ := List.cons.inj hcons
        obtain ⟨-, rfl⟩ := Prod.mk.inj hhead
        exact ⟨u, fuel, rfl, hr⟩

/-- The call behind the last event of a pass returns `None`, or goes on from where it rewound to. -/
theorem pass_end {fuel : Nat} {s t : IchSource} (h : pass fuel s = some ([], t)) :
    next fuel s = some (none, t) ∨
      t.cursor = t.loopStart ∧ ∃ k, ∀ n, next (n + k) s = next n t := by
  induction fuel generalizing s with
  | zero => cases h
  | succ fuel ih =>
    rw [pass] at h
    cases ht : s.turn with
    | panicked p => simp [ht] at h
    | rewound u =>
      rw [ht] at h
      obtain ⟨-, rfl⟩ := Prod.mk.inj (Option.some.inj h)
      rw [(turn_rewound ht).1]
      refine .inr ⟨rfl, 1, fun n => ?_⟩
      rw [next, ht, (turn_rewound ht).1]
    | skipped u =>
      rw [ht] at h
      rcases ih h with hnone | ⟨hcur, k, hk⟩
      · left
        rw [next, ht]
        exact hnone
      · refine .inr ⟨hcur, k + 1, fun n => ?_⟩
        rw [← Nat.add_assoc, next, ht]
        exact hk n
    | returned r u =>
      rw [ht] at h
      cases r with
      | none =>
        obtain ⟨-, rfl⟩ := Prod.mk.inj (Option.some.inj h)
        left
        rw [next, ht]
      | some e =>
        obtain ⟨r, -, heq⟩ := Option.map_eq_some_iff.mp h
        exact absurd (Prod.mk.inj heq).1 (by simp)

end IchSource

/-- The events of the frames from `p` on, each with the offset of its frame. -/
def eventsFrom (framing : Framing) (buf : List UInt8) (p : Nat) : List (Nat × Event) :=
  (frames framing buf p).1.filterMap (fun q => (frameEvent framing buf q).map (fun ev => (q, ev)))

section

variable {framing : Framing} {buf : List UInt8} {p : Nat}

theorem eventsFrom_done (h : frameAt framing buf p = .done) : eventsFrom framing buf p = [] := by
  rw [eventsFrom, frames_done h]
  rfl

theorem eventsFrom_illegal (h : frameAt framing buf p = .illegal) :
    eventsFrom framing buf p = [] := by
  rw [eventsFrom, frames_illegal h]
  rfl

theorem eventsFrom_unknown (h : frameAt framing buf p = .unknown) :
    eventsFrom framing buf p = eventsFrom framing buf (p + 1) := by
  have hnone : frameEvent framing buf p = none := by rw [frameEvent, h]
  rw [eventsFrom, frames_unknown h, List.filterMap_cons, hnone]
  rfl

theorem eventsFrom_whole {a b : Nat} (h : frameAt framing buf p = .whole a b) :
    eventsFrom framing buf p =
      ((frameEvent framing buf p).map (fun ev => (p, ev))).toList ++ eventsFrom framing buf b := by
  rw [eventsFrom, frames_whole h, Tagged.filterMap_cons_toList]
  rfl

theorem le_of_mem_eventsFrom {r : Nat × Event} (h : r ∈ eventsFrom framing buf p) : p ≤ r.1 := by
  obtain ⟨q, hq, hr⟩ := List.mem_filterMap.mp h
  obtain ⟨ev, -, rfl⟩ := Option.map_eq_some_iff.mp hr
  exact frames_le hq

/-- From one of the frames on, the events are a suffix. -/
theorem eventsFrom_split {q : Nat} (hq : q ∈ (frames framing buf p).1) :
    ∃ before, eventsFrom framing buf p = before ++ eventsFrom framing buf q ∧
      ∀ r ∈ before, r.1 < q := by
  obtain ⟨-, pre, hpre, hlt⟩ := frames_split hq
  refine ⟨_, by rw [eventsFrom, hpre, List.filterMap_append]; rfl, ?_⟩
  intro r hr
  obtain ⟨x, hx, hrx⟩ := List.mem_filterMap.mp hr
  obtain ⟨ev, -, rfl⟩ := Option.map_eq_some_iff.mp hrx
  exact hlt x hx

end

namespace IchSource

/-- A pass returns the events of the frames from the cursor on. -/
theorem pass_eq (framing : Framing) (buf : List UInt8) (p : Nat) {fuel : Nat} {s : IchSource}
    (hfuel : buf.length - p < fuel) (hframing : s.framing = framing) (hbuf : s.mmap = buf)
    (hcursor : s.cursor = p) : ∃ t, pass fuel s = some (eventsFrom framing buf p, t) := by
  induction p using frames_induction framing buf generalizing fuel s with
  | done p hf =>
    obtain ⟨fuel, rfl⟩ : ∃ k, fuel = k + 1 := ⟨fuel - 1, by omega⟩
    have hturn := turn_done (s := s) (by rw [hframing, hbuf, hcursor, hf])
    rw [pass, hturn, eventsFrom_done hf]
    exact ⟨_, rfl⟩
  | illegal p hf =>
    obtain ⟨fuel, rfl⟩ : ∃ k, fuel = k + 1 := ⟨fuel - 1, by omega⟩
    have hturn := turn_illegal (s := s) (by rw [hframing, hbuf, hcursor, hf])
    rw [pass, hturn, eventsFrom_illegal hf]
    exact ⟨_, rfl⟩
  | unknown p hf ih =>
    obtain ⟨fuel, rfl⟩ : ∃ k, fuel = k + 1 := ⟨fuel - 1, by omega⟩
    obtain ⟨-, hlt, -⟩ := frameAt_unknown hf
    obtain ⟨u, hturn, hmoved⟩ := turn_unknown (s := s) (by rw [hframing, hbuf, hcursor, hf])
    rw [pass, hturn, eventsFrom_unknown hf]
    exact ih (by omega) (hmoved.framing.trans hframing) (hmoved.mmap.trans hbuf)
      (by rw [hmoved.cursor, hcursor])
  | whole p a b hf ih =>
    obtain ⟨fuel, rfl⟩ : ∃ k, fuel = k + 1 := ⟨fuel - 1, by omega⟩
    obtain ⟨hpa, hab, hb, -⟩ := frameAt_whole hf
    obtain ⟨u, hturn, hmoved⟩ := turn_whole (s := s) (by rw [hframing, hbuf, hcursor, hf])
    rw [hframing, hbuf, hcursor] at hturn
    have hleft : buf.length - b < fuel := by omega
    obtain ⟨t, hrest⟩ := ih hleft (hmoved.framing.trans hframing) (hmoved.mmap.trans hbuf)
      hmoved.cursor
    rw [pass, hturn, eventsFrom_whole hf]
    cases frameEvent framing buf p with
    | none => exact ⟨t, hrest⟩
    | some ev => exact ⟨t, by simp only [found, hrest, hcursor]; rfl⟩

/-- The source that a turn leaves, whether or not the call goes on. -/
def Turn.source : Turn → Option IchSource
  | .panicked _ => none
  | .rewound t => some t
  | .skipped t => some t
  | .returned _ t => some t

@[simp] theorem source_found (ev : Option Event) (t : IchSource) : (found ev t).source = some t := by
  cases ev <;> rfl

def Turns (s t : IchSource) : Prop := s.turn.source = some t

/-- A turn moves the cursor and nothing else that playback depends on. -/
theorem turns_moved {s t : IchSource} (h : s.Turns t) : ∃ q, s.Moved t q := by
  cases hf : frameAt s.framing s.mmap s.cursor with
  | done =>
    rw [Turns, turn_done hf] at h
    exact ⟨_, Option.some.inj h ▸ s.moved_rewind⟩
  | illegal =>
    rw [Turns, turn_illegal hf] at h
    exact ⟨s.cursor, Option.some.inj h ▸ ⟨rfl, rfl, rfl, rfl⟩⟩
  | unknown =>
    obtain ⟨u, hu, hm⟩ := turn_unknown hf
    rw [Turns, hu] at h
    exact ⟨_, Option.some.inj h ▸ hm⟩
  | whole a b =>
    obtain ⟨u, hu, hm⟩ := turn_whole hf
    rw [Turns, hu, source_found] at h
    exact ⟨_, Option.some.inj h ▸ hm⟩

theorem run_moved {s t : IchSource} (h : Relation.ReflTransGen Turns s t) : ∃ q, s.Moved t q := by
  induction h with
  | refl => exact ⟨s.cursor, rfl, rfl, rfl, rfl⟩
  | tail _ hstep ih =>
    obtain ⟨q, hq⟩ := ih
    obtain ⟨r, hr⟩ := turns_moved hstep
    exact ⟨r, hq.trans hr⟩

end IchSource

/-- Opened at a start time, the source plays the events from the first timely message on, and rewinds
to that message. -/
theorem fast_forward_suffix {mmap : List UInt8} {framing : Framing} {targetNs : UInt64} {p : Nat}
    (h : (frames framing mmap 0).1.find? (timely framing mmap targetNs) = some p) (pace : Pace) :
    ∃ s₀ s₁, IchSource.openWith mmap pace framing none = .ok (.ok s₀) ∧
      IchSource.openWith mmap pace framing (some targetNs) = .ok (.ok s₁) ∧
      (∃ fuel before events t₀ t₁, IchSource.pass fuel s₀ = some (before ++ events, t₀) ∧
        IchSource.pass fuel s₁ = some (events, t₁) ∧
        (∀ r ∈ before, r.1 < p) ∧ ∀ r ∈ events, p ≤ r.1) ∧
      s₁.cursor = p ∧
      ∀ t u, Relation.ReflTransGen IchSource.Turns s₁ t → t.turn = .rewound u → u.cursor = p := by
  have hne : mmap ≠ [] := by
    rintro rfl
    have hempty : frames framing [] 0 = ([], 0) := rfl
    rw [hempty] at h
    cases h
  have hstart : startsAt framing mmap (some targetNs) = p := by
    rw [startsAt, seek, h]
    rfl
  obtain ⟨s₀, ho₀, hbuf₀, hframing₀, hcur₀, -⟩ := IchSource.openWith_eq hne pace framing none
  obtain ⟨s₁, ho₁, hbuf₁, hframing₁, hcur₁, hloop₁⟩ :=
    IchSource.openWith_eq hne pace framing (some targetNs)
  rw [hstart] at hcur₁ hloop₁
  obtain ⟨before, hevents, hbefore⟩ := eventsFrom_split (List.mem_of_find?_eq_some h)
  have hfuel : ∀ q, mmap.length - q < mmap.length + 1 := fun q => by omega
  obtain ⟨t₀, ht₀⟩ := IchSource.pass_eq framing mmap 0 (hfuel 0) hframing₀ hbuf₀ hcur₀
  obtain ⟨t₁, ht₁⟩ := IchSource.pass_eq framing mmap p (hfuel p) hframing₁ hbuf₁ hcur₁
  refine ⟨s₀, s₁, ho₀, ho₁, ⟨_, before, _, t₀, t₁, ?_, ht₁, hbefore, ?_⟩, hcur₁, ?_⟩
  · rw [ht₀, hevents]
  · exact fun r hr => le_of_mem_eventsFrom hr
  · intro t u hrun hu
    -- no turn moves the offset that a rewind goes back to
    obtain ⟨q, hq⟩ := IchSource.run_moved hrun
    rw [(IchSource.turn_rewound hu).1]
    exact hq.loopStart.trans hloop₁

/-- A byte that begins nothing and two deletes, opened between them. -/
theorem fast_forward_suffix_second :
    ∃ s₀ s₁, IchSource.openWith (90 :: (deleteAt 5 ++ deleteAt 9)) .asFastAsPossible .unframed none =
        .ok (.ok s₀) ∧
      IchSource.openWith (90 :: (deleteAt 5 ++ deleteAt 9)) .asFastAsPossible .unframed (some 7) =
        .ok (.ok s₁) ∧
      (∃ fuel before events t₀ t₁, IchSource.pass fuel s₀ = some (before ++ events, t₀) ∧
        IchSource.pass fuel s₁ = some (events, t₁) ∧
        (∀ r ∈ before, r.1 < 20) ∧ ∀ r ∈ events, 20 ≤ r.1) ∧
      s₁.cursor = 20 ∧
      ∀ t u, Relation.ReflTransGen IchSource.Turns s₁ t → t.turn = .rewound u → u.cursor = 20 :=
  fast_forward_suffix (by decide) .asFastAsPossible

end Flowlab.Engine
