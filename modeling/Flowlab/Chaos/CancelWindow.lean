import Flowlab.Chaos.CancellationStorm

namespace Flowlab.Chaos

open Framework SlidingWindow
open Flowlab.Core (EventType SequencedEvent satSub64 satSub64_toNat)

/-- An event that the rate window takes in. -/
def tracked (ev : SequencedEvent) : Bool :=
  (EventType.fromU8 ev.event.eventType).any fun etype => decide (FeedsRate etype)

/-- The cancels among some entries. -/
def cancelCount (window : List WindowEntry) : Nat :=
  window.countP fun e => decide e.IsCancel

namespace CancellationStormDetector

/-- An entry within every enabled window of an event. -/
def Within (d : CancellationStormDetector) (ev e : SequencedEvent) : Prop :=
  (0 < d.seqWindow → ev.seq.toNat - e.seq.toNat ≤ d.seqWindow.toNat) ∧
    (0 < d.timeWindowNs → ev.event.ts.toNat - e.event.ts.toNat ≤ d.timeWindowNs.toNat)

instance (d : CancellationStormDetector) (ev e : SequencedEvent) : Decidable (d.Within ev e) :=
  inferInstanceAs (Decidable ((_ → _) ∧ (_ → _)))

theorem not_expired_iff (d : CancellationStormDetector) (ev e : SequencedEvent) :
    ¬ d.Expired ev.seq ev.event.ts (.of e) ↔ d.Within ev e := by
  simp only [Expired, Within, WindowEntry.of, not_or, not_and, UInt64.not_lt,
    UInt64.le_iff_toNat_le, satSub64_toNat]

/-- What an entry of the window does to the entries in it. -/
def expiry (d : CancellationStormDetector) (c e : WindowEntry) : Bool :=
  decide (d.Expired c.seq c.ts e)

/-- The eviction loop drops the expired front and goes on counting the cancels behind it. -/
theorem evictLoop_eq (expired : WindowEntry → Bool) (window : List WindowEntry) :
    evictLoop expired window (cancelCount window) =
      (window.dropWhile expired, cancelCount (window.dropWhile expired)) := by
  induction window with
  | nil => rfl
  | cons e window ih =>
    rw [evictLoop, List.dropWhile_cons]
    split_ifs with he hcancel
    · have hcount : cancelCount (e :: window) - 1 = cancelCount window := by
        simp [cancelCount, hcancel]
      rw [hcount, ih]
    · have hcount : cancelCount (e :: window) = cancelCount window := by
        simp [cancelCount, hcancel]
      rw [hcount, ih]
    · rfl

/-- The cancels in the window are counted. -/
def Counted (d : CancellationStormDetector) : Prop := d.cancelsInWindow = cancelCount d.window

theorem evictExpired_spec {d : CancellationStormDetector} (h : d.Counted) (curSeq curTs : UInt64) :
    (d.evictExpired curSeq curTs).Counted ∧ (d.evictExpired curSeq curTs).window =
      d.window.dropWhile fun e => decide (d.Expired curSeq curTs e) := by
  have hloop := evictLoop_eq (fun e => decide (d.Expired curSeq curTs e)) d.window
  rw [Counted] at h
  simp only [Counted, evictExpired]
  rw [h, hloop]
  exact ⟨rfl, rfl⟩

theorem enter_spec {d : CancellationStormDetector} (h : d.Counted) (ev : SequencedEvent) :
    (d.enter ev).Counted ∧ (d.enter ev).window = slide d.expiry d.window (.of ev) := by
  refine evictExpired_spec (d := { d with
    window := d.window ++ [WindowEntry.of ev]
    cancelsInWindow :=
      if (WindowEntry.of ev).IsCancel then d.cancelsInWindow + 1 else d.cancelsInWindow }) ?_ _ _
  rw [Counted] at h ⊢
  dsimp only
  rw [h]
  split_ifs with hcancel <;> simp [cancelCount, hcancel]

/-- What comes earlier expires earlier, -/
theorem expired_older (d : CancellationStormDetector) {a b c : WindowEntry}
    (hab : a.seq ≤ b.seq ∧ a.ts ≤ b.ts) (h : d.expiry c b = true) : d.expiry c a = true := by
  have hb := of_decide_eq_true h
  refine decide_eq_true ?_
  simp only [Expired, UInt64.lt_iff_toNat_lt, satSub64_toNat] at hb ⊢
  rw [UInt64.le_iff_toNat_le, UInt64.le_iff_toNat_le] at hab
  omega

/-- and stays expired. -/
theorem expired_later (d : CancellationStormDetector) {a c c' : WindowEntry}
    (hc : c.seq ≤ c'.seq ∧ c.ts ≤ c'.ts) (h : d.expiry c a = true) : d.expiry c' a = true := by
  have ha := of_decide_eq_true h
  refine decide_eq_true ?_
  simp only [Expired, UInt64.lt_iff_toNat_lt, satSub64_toNat] at ha ⊢
  rw [UInt64.le_iff_toNat_le, UInt64.le_iff_toNat_le] at hc
  omega

/-- The parameters and the window are the same. -/
structure SameWindow (d d' : CancellationStormDetector) : Prop where
  window : d'.window = d.window
  cancels : d'.cancelsInWindow = d.cancelsInWindow
  seqWindow : d'.seqWindow = d.seqWindow
  timeWindow : d'.timeWindowNs = d.timeWindowNs
  minWindow : d'.minWindow = d.minWindow

theorem sameWindow_above (d : CancellationStormDetector) (ev : SequencedEvent) (rate : Float)
    (inRefractory : Bool) :
    SameWindow d (d.above ev rate inRefractory).1 ∧
      (d.above ev rate inRefractory).1.lastRate = d.lastRate := by
  simp only [above]
  split_ifs <;> exact ⟨⟨rfl, rfl, rfl, rfl, rfl⟩, rfl⟩

theorem sameWindow_below (d : CancellationStormDetector) (rate : Float) (inRefractory : Bool) :
    SameWindow d (d.below rate inRefractory) ∧ (d.below rate inRefractory).lastRate = d.lastRate := by
  simp only [below]
  split_ifs <;> exact ⟨⟨rfl, rfl, rfl, rfl, rfl⟩, rfl⟩

theorem SameWindow.trans {d₁ d₂ d₃ : CancellationStormDetector} (h : SameWindow d₁ d₂)
    (h' : SameWindow d₂ d₃) : SameWindow d₁ d₃ :=
  ⟨h'.window.trans h.window, h'.cancels.trans h.cancels, h'.seqWindow.trans h.seqWindow,
    h'.timeWindow.trans h.timeWindow, h'.minWindow.trans h.minWindow⟩

/-- The evaluation reads the window, and takes the rate when there are entries enough. -/
theorem evaluate_spec (d : CancellationStormDetector) (ev : SequencedEvent) :
    SameWindow d (d.evaluate ev).1 ∧
      (d.minWindow ≤ d.window.length →
        (d.evaluate ev).1.lastRate = cancelRate d.cancelsInWindow d.window.length) := by
  have hrated : SameWindow d { d with lastRate := cancelRate d.cancelsInWindow d.window.length } :=
    ⟨rfl, rfl, rfl, rfl, rfl⟩
  simp only [evaluate]
  split_ifs with hfew hcold habove
  · exact ⟨⟨rfl, rfl, rfl, rfl, rfl⟩, fun h => absurd hfew (not_lt.mpr h)⟩
  · exact ⟨⟨rfl, rfl, rfl, rfl, rfl⟩, fun _ => rfl⟩
  · obtain ⟨hsame, hrate⟩ := sameWindow_above
      { d with lastRate := cancelRate d.cancelsInWindow d.window.length } ev
      (cancelRate d.cancelsInWindow d.window.length) (decide (ev.seq < d.refractoryUntil))
    exact ⟨hrated.trans hsame, fun _ => hrate⟩
  · obtain ⟨hsame, hrate⟩ := sameWindow_below
      { d with lastRate := cancelRate d.cancelsInWindow d.window.length }
      (cancelRate d.cancelsInWindow d.window.length) (decide (ev.seq < d.refractoryUntil))
    exact ⟨hrated.trans hsame, fun _ => hrate⟩

theorem process_eq (d : CancellationStormDetector) (ev : SequencedEvent) :
    d.process ev = if tracked ev then (d.enter ev).evaluate ev else (d, none) := by
  cases htype : EventType.fromU8 ev.event.eventType with
  | none => simp [process, tracked, htype]
  | some etype => by_cases hfeeds : FeedsRate etype <;> simp [process, tracked, htype, hfeeds]

theorem process_minWindow (d : CancellationStormDetector) (ev : SequencedEvent) :
    (d.process ev).1.minWindow = d.minWindow := by
  rw [process_eq]
  split_ifs
  · exact ((d.enter ev).evaluate_spec ev).1.minWindow
  · rfl

theorem run_minWindow (d : CancellationStormDetector) (evs : List SequencedEvent) :
    (d.run evs).minWindow = d.minWindow := by
  induction evs generalizing d with
  | nil => rfl
  | cons ev evs ih => exact (ih (d.process ev).1).trans (d.process_minWindow ev)

/-- One event slides the window when it is tracked, and leaves it otherwise. -/
theorem process_spec {d : CancellationStormDetector} (h : d.Counted) (ev : SequencedEvent) :
    (d.process ev).1.Counted ∧ (d.process ev).1.expiry = d.expiry ∧
    (d.process ev).1.window =
      if tracked ev then slide d.expiry d.window (.of ev) else d.window := by
  rw [process_eq]
  split_ifs with htracked
  · obtain ⟨hcounted, hwindow⟩ := enter_spec h ev
    obtain ⟨hsame, _⟩ := (d.enter ev).evaluate_spec ev
    refine ⟨?_, ?_, hsame.window.trans hwindow⟩
    · rw [Counted, hsame.cancels, hsame.window]
      exact hcounted
    · funext c e
      simp only [expiry, Expired, hsame.seqWindow, hsame.timeWindow]
      rfl
  · exact ⟨h, rfl, rfl⟩

/-- A run slides the window over the tracked events. -/
theorem run_spec {d : CancellationStormDetector} (h : d.Counted) (evs : List SequencedEvent) :
    (d.run evs).Counted ∧ (d.run evs).expiry = d.expiry ∧
    (d.run evs).window = ((evs.filter tracked).map .of).foldl (slide d.expiry) d.window := by
  induction evs generalizing d with
  | nil => exact ⟨h, rfl, rfl⟩
  | cons ev evs ih =>
    obtain ⟨hcounted, hexpiry, hwindow⟩ := process_spec h ev
    obtain ⟨hrest, hrestExpiry, hrestWindow⟩ := ih hcounted
    refine ⟨hrest, hrestExpiry.trans hexpiry, hrestWindow.trans ?_⟩
    rw [hexpiry, hwindow]
    split_ifs with htracked
    · rw [List.filter_cons_of_pos htracked]
      rfl
    · rw [List.filter_cons_of_neg htracked]

/-- Over ordered events the window holds the tracked ones within every enabled window of the last. -/
theorem run_window {d : CancellationStormDetector} (h : d.Counted) (hempty : d.window = [])
    {p : List SequencedEvent} {ev : SequencedEvent}
    (horder : (p ++ [ev]).Pairwise fun a b => a.seq ≤ b.seq ∧ a.event.ts ≤ b.event.ts)
    (hev : tracked ev = true) :
    (d.run (p ++ [ev])).window =
      ((p ++ [ev]).filter fun e => tracked e && decide (d.Within ev e)).map .of := by
  have hfilter : (p ++ [ev]).filter tracked = p.filter tracked ++ [ev] := by
    rw [List.filter_append, List.filter_cons_of_pos hev, List.filter_nil]
  have hentries : (((p.filter tracked).map WindowEntry.of) ++ [WindowEntry.of ev]).Pairwise
      fun a b => a.seq ≤ b.seq ∧ a.ts ≤ b.ts := by
    have hmap := (horder.sublist (List.filter_sublist (p := tracked))).map WindowEntry.of
      (S := fun a b => a.seq ≤ b.seq ∧ a.ts ≤ b.ts) fun _ _ hab => hab
    rwa [hfilter, List.map_append] at hmap
  have hexact := foldl_slide_eq_filter d.expiry
    (fun {a b c} hab hb => expired_older d hab hb) (fun {a c c'} hc ha => expired_later d hc ha)
    hentries
  rw [(run_spec h _).2.2, hempty, hfilter, List.map_append, List.map_singleton, hexact, ← List.map_singleton,
    ← List.map_append, ← hfilter, List.filter_map, List.filter_filter]
  congr 1
  refine List.filter_congr fun e _ => ?_
  rw [Bool.and_comm]
  congr 1
  exact decide_not.symm.trans (decide_eq_decide.mpr (d.not_expired_iff ev e))

/-- What a tracked event leaves is evaluated at once. -/
theorem run_rate {d : CancellationStormDetector} {p : List SequencedEvent} {ev : SequencedEvent}
    (hev : tracked ev = true)
    (hfull : (d.run (p ++ [ev])).minWindow ≤ (d.run (p ++ [ev])).window.length) :
    (d.run (p ++ [ev])).lastRate =
      cancelRate (d.run (p ++ [ev])).cancelsInWindow (d.run (p ++ [ev])).window.length := by
  have hlast : d.run (p ++ [ev]) = (((d.run p).enter ev).evaluate ev).1 := by
    rw [run, List.foldl_append]
    show ((d.run p).process ev).1 = _
    rw [process_eq, if_pos hev]
  obtain ⟨hsame, hrate⟩ := ((d.run p).enter ev).evaluate_spec ev
  rw [hlast] at hfull ⊢
  rw [hsame.minWindow, hsame.window] at hfull
  rw [hsame.window, hsame.cancels]
  exact hrate hfull

end CancellationStormDetector

/-- The cancels counted are those in the window, at every event; over ordered events the window holds,
after each tracked one, the tracked events so far that lie within every enabled window of it, and the
rate taken there is the share of cancels among them. -/
theorem cancel_rate_exact (seqWindow timeWindowNs : UInt64) (minWindow : Nat) (warmupSamples : UInt64)
    (sigmaFloor kSigma : Float) (minConsecutive cooldownSeq : UInt64) {d : CancellationStormDetector}
    (hd : d = .new seqWindow timeWindowNs minWindow warmupSamples sigmaFloor kSigma minConsecutive
      cooldownSeq) (evs : List SequencedEvent) :
    (d.run evs).cancelsInWindow = cancelCount (d.run evs).window ∧
    ∀ p ev, evs = p ++ [ev] → tracked ev = true →
      (evs.Pairwise fun a b => a.seq ≤ b.seq ∧ a.event.ts ≤ b.event.ts) →
      (d.run evs).window =
        (evs.filter fun e => tracked e && decide (d.Within ev e)).map .of ∧
      (minWindow ≤ (d.run evs).window.length → (d.run evs).lastRate =
        CancellationStormDetector.cancelRate
          (cancelCount ((evs.filter fun e => tracked e && decide (d.Within ev e)).map .of))
          (evs.filter fun e => tracked e && decide (d.Within ev e)).length) := by
  have hcounted : d.Counted := by rw [hd]; rfl
  have hempty : d.window = [] := by rw [hd]; rfl
  have hmin : (d.run evs).minWindow = minWindow := by
    rw [d.run_minWindow, hd]
    rfl
  obtain ⟨hcount, _, _⟩ := CancellationStormDetector.run_spec hcounted evs
  refine ⟨hcount, ?_⟩
  rintro p ev rfl hev horder
  have hwindow := CancellationStormDetector.run_window hcounted hempty horder hev
  refine ⟨hwindow, fun hfull => ?_⟩
  rw [CancellationStormDetector.run_rate hev (hmin ▸ hfull), hcount, hwindow, List.length_map]

/-- An add, a cancel, a modify and a trade. -/
def fourKinds : List SequencedEvent :=
  [⟨1, 0, ⟨1, 100, 10, 1, 1, 1, 0⟩, 0, 0⟩, ⟨5, 0, ⟨5, 100, 10, 1, 1, 2, 0⟩, 0, 0⟩,
    ⟨8, 0, ⟨8, 100, 10, 2, 1, 3, 0⟩, 0, 0⟩, ⟨12, 0, ⟨12, 100, 10, 3, 1, 4, 0⟩, 0, 0⟩]

/-- In a window of ten the trade finds the cancel and itself. -/
theorem cancel_rate_exact_four :
    ((CancellationStormDetector.new 10 0 2 0 0.02 4.0 1 0).run fourKinds).window =
        [⟨5, 5, 2⟩, ⟨12, 12, 4⟩] ∧
      ((CancellationStormDetector.new 10 0 2 0 0.02 4.0 1 0).run fourKinds).lastRate =
        CancellationStormDetector.cancelRate 1 2 := by
  obtain ⟨hwindow, hrate⟩ := (cancel_rate_exact 10 0 2 0 0.02 4.0 1 0 rfl fourKinds).2
    (fourKinds.take 3) ⟨12, 0, ⟨12, 100, 10, 3, 1, 4, 0⟩, 0, 0⟩ rfl rfl (by decide)
  have hfull := congrArg List.length hwindow
  exact ⟨hwindow, hrate (by rw [hfull]; decide)⟩

end Flowlab.Chaos
