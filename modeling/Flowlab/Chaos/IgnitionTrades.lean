import Flowlab.Framework.Emission
import Flowlab.Chaos.MomentumIgnition
import Flowlab.Chaos.PriceLevels

namespace Flowlab.Chaos

open Std Framework Framework.Machine
open Flowlab.Core (EventType SequencedEvent)

namespace MomentumIgnitionDetector

/-! One step in parts, as functions of the mid after the event. -/

/-- A mid is sampled when it differs from the last sample. -/
def Moves (d : MomentumIgnitionDetector) (mid : UInt64) : Prop :=
  d.mids.getLast?.map MidSample.mid ≠ some mid

instance (d : MomentumIgnitionDetector) (mid : UInt64) : Decidable (d.Moves mid) :=
  inferInstanceAs (Decidable (_ ≠ _))

/-- The window after the sample and the evictions of an event. -/
def slide (d : MomentumIgnitionDetector) (ev : SequencedEvent) (mid : UInt64) :
    MomentumIgnitionDetector :=
  let d := if d.Moves mid then { d with mids := d.mids ++ [⟨ev.seq, ev.event.ts, mid⟩] } else d
  d.evictExpired ev.seq ev.event.ts

/-- The run after the sample. -/
def advance (d : MomentumIgnitionDetector) (ev : SequencedEvent) (mid : UInt64) :
    MomentumIgnitionDetector :=
  if d.Moves mid then (d.slide ev mid).updateRun mid ev.seq ev.event.ts else d.slide ev mid

def sampleAt (d : MomentumIgnitionDetector) (ev : SequencedEvent) (mid : UInt64) :
    MomentumIgnitionDetector × Option ChaosEvent :=
  if ev.seq < (d.slide ev mid).refractoryUntil then (d.advance ev mid, none)
  else (d.advance ev mid).evaluate ev mid

theorem sample_eq (d : MomentumIgnitionDetector) (ev : SequencedEvent) :
    d.sample ev =
      match d.toMiniBook.midprice with
      | none => (d, none)
      | some mid => d.sampleAt ev mid := by
  simp only [sample]
  cases d.toMiniBook.midprice with
  | none => rfl
  | some mid =>
    simp only [sampleAt, advance, slide, Moves, decide_eq_true_eq]
    rfl

/-- What an event makes of the detector before it samples. -/
def applied (d : MomentumIgnitionDetector) (ev : SequencedEvent) : MomentumIgnitionDetector :=
  match EventType.fromU8 ev.event.eventType with
  | none => d
  | some etype => d.mutate etype ev.event

/-- A step samples the mid, or leaves the detector as the event made it. -/
theorem process_cases (d : MomentumIgnitionDetector) (ev : SequencedEvent) :
    d.process ev = (d.applied ev, none) ∨ ∃ mid, (d.applied ev).toMiniBook.midprice = some mid ∧
      d.process ev = (d.applied ev).sampleAt ev mid := by
  simp only [process, applied]
  cases EventType.fromU8 ev.event.eventType with
  | none => exact Or.inl rfl
  | some etype =>
    have hsample : (d.mutate etype ev.event).sample ev = (d.mutate etype ev.event, none) ∨
        ∃ mid, (d.mutate etype ev.event).toMiniBook.midprice = some mid ∧
          (d.mutate etype ev.event).sample ev = (d.mutate etype ev.event).sampleAt ev mid := by
      rw [sample_eq]
      cases (d.mutate etype ev.event).toMiniBook.midprice with
      | none => exact Or.inl rfl
      | some mid => exact Or.inr ⟨mid, rfl, rfl⟩
    cases etype with
    | bookSnapshot => exact Or.inl rfl
    | _ => exact hsample

/-- A step with the touch read off the sorted keys of the book, which evaluates. -/
def processKeys (d : MomentumIgnitionDetector) (ev : SequencedEvent) :
    MomentumIgnitionDetector × Option ChaosEvent :=
  match EventType.fromU8 ev.event.eventType with
  | none => (d, none)
  | some .bookSnapshot => (d, none)
  | some etype =>
    let d := d.mutate etype ev.event
    match MiniBook.mid d.bids.keys.getLast? d.asks.keys.head? with
    | none => (d, none)
    | some mid => d.sampleAt ev mid

theorem process_eq_keys : process = processKeys := by
  funext d ev
  cases htype : EventType.fromU8 ev.event.eventType with
  | none => simp only [process, processKeys, htype]
  | some etype => cases etype <;> simp only [process, processKeys, htype, sample_eq, MiniBook.midprice_eq_keys]

/-- The fields that only the flag and the window's upkeep do not touch. -/
structure SameRun (d d' : MomentumIgnitionDetector) : Prop where
  mids : d'.mids = d.mids
  trades : d'.tradesInWindow = d.tradesInWindow
  buys : d'.buyPressure = d.buyPressure
  sells : d'.sellPressure = d.sellPressure
  minTrades : d'.minTrades = d.minTrades

theorem sameRun_updateRun (d : MomentumIgnitionDetector) (mid seq ts : UInt64) :
    SameRun d (d.updateRun mid seq ts) := by
  simp only [updateRun]
  split
  · exact ⟨rfl, rfl, rfl, rfl, rfl⟩
  · split_ifs <;> exact ⟨rfl, rfl, rfl, rfl, rfl⟩

theorem sameRun_evaluate (d : MomentumIgnitionDetector) (ev : SequencedEvent) (mid : UInt64) :
    SameRun d (d.evaluate ev mid).1 := by
  simp only [evaluate]
  split
  · exact ⟨rfl, rfl, rfl, rfl, rfl⟩
  · split_ifs <;> exact ⟨rfl, rfl, rfl, rfl, rfl⟩

theorem SameRun.trans {d₁ d₂ d₃ : MomentumIgnitionDetector} (h : SameRun d₁ d₂)
    (h' : SameRun d₂ d₃) : SameRun d₁ d₃ :=
  ⟨h'.mids.trans h.mids, h'.trades.trans h.trades, h'.buys.trans h.buys, h'.sells.trans h.sells,
    h'.minTrades.trans h.minTrades⟩

/-- After the window has slid, a step only moves the run. -/
theorem sameRun_sampleAt (d : MomentumIgnitionDetector) (ev : SequencedEvent) (mid : UInt64) :
    SameRun (d.slide ev mid) (d.sampleAt ev mid).1 := by
  have hadvance : SameRun (d.slide ev mid) (d.advance ev mid) := by
    simp only [advance]
    split_ifs
    · exact sameRun_updateRun _ _ _ _
    · exact ⟨rfl, rfl, rfl, rfl, rfl⟩
  simp only [sampleAt]
  split_ifs
  · exact hadvance
  · exact hadvance.trans (sameRun_evaluate _ ev mid)

/-- The counters outlive an eviction unless no sample does. -/
theorem slide_counters (d : MomentumIgnitionDetector) (ev : SequencedEvent) (mid : UInt64) :
    (d.slide ev mid).minTrades = d.minTrades ∧
    (((d.slide ev mid).mids ≠ [] ∧ (d.slide ev mid).tradesInWindow = d.tradesInWindow) ∨
      ((d.slide ev mid).mids = [] ∧ (d.slide ev mid).tradesInWindow = 0 ∧
        (d.slide ev mid).buyPressure = 0 ∧ (d.slide ev mid).sellPressure = 0)) := by
  simp only [slide, evictExpired]
  split_ifs with hmoves hempty hempty
  · exact ⟨rfl, Or.inr ⟨List.isEmpty_iff.mp hempty, rfl, rfl, rfl⟩⟩
  · exact ⟨rfl, Or.inl ⟨fun h => hempty (List.isEmpty_iff.mpr h), rfl⟩⟩
  · exact ⟨rfl, Or.inr ⟨List.isEmpty_iff.mp hempty, rfl, rfl, rfl⟩⟩
  · exact ⟨rfl, Or.inl ⟨fun h => hempty (List.isEmpty_iff.mpr h), rfl⟩⟩

/-- A trade that the order tracker resolves. -/
def Resolves (d : MomentumIgnitionDetector) (ev : SequencedEvent) : Prop :=
  EventType.fromU8 ev.event.eventType = some .trade ∧ (d.toMiniBook.onTrade ev.event).2.isSome = true

instance (d : MomentumIgnitionDetector) (ev : SequencedEvent) : Decidable (d.Resolves ev) :=
  inferInstanceAs (Decidable (_ ∧ _))

/-- How many trades of a stream are resolved against the order tracker. -/
def resolvedTrades (d : MomentumIgnitionDetector) : List SequencedEvent → Nat
  | [] => 0
  | ev :: evs => (if d.Resolves ev then 1 else 0) + resolvedTrades (d.process ev).1 evs

theorem applied_counters (d : MomentumIgnitionDetector) (ev : SequencedEvent) :
    (d.applied ev).mids = d.mids ∧ (d.applied ev).minTrades = d.minTrades ∧
    (d.applied ev).tradesInWindow = d.tradesInWindow + (if d.Resolves ev then 1 else 0) := by
  cases ht : EventType.fromU8 ev.event.eventType with
  | none => simp [applied, Resolves, ht]
  | some etype =>
    cases etype with
    | trade =>
      simp only [applied, Resolves, ht, mutate]
      cases hr : (d.toMiniBook.onTrade ev.event).2 with
      | none => simp
      | some trade => cases ha : trade.aggressor <;> simp [countTrade, ha]
    | _ => simp [applied, Resolves, ht, mutate]

/-- A step counts a resolved trade; the counter starts over exactly where the last sample goes. -/
theorem process_counters (d : MomentumIgnitionDetector) (ev : SequencedEvent) :
    (d.process ev).1.minTrades = d.minTrades ∧
    (((d.process ev).1.tradesInWindow = d.tradesInWindow + (if d.Resolves ev then 1 else 0) ∧
        ((d.process ev).1.mids = [] → d.mids = [])) ∨
      ((d.process ev).1.tradesInWindow = 0 ∧ (d.process ev).1.mids = [])) := by
  obtain ⟨hmids, hmin, htrades⟩ := d.applied_counters ev
  rcases d.process_cases ev with hp | ⟨mid, _, hp⟩
  · rw [hp]
    exact ⟨hmin, Or.inl ⟨htrades, fun h => hmids.symm.trans h⟩⟩
  · have hsame := (d.applied ev).sameRun_sampleAt ev mid
    obtain ⟨hslide, hcases⟩ := (d.applied ev).slide_counters ev mid
    rw [hp]
    refine ⟨hsame.minTrades.trans (hslide.trans hmin), ?_⟩
    rw [hsame.trades, hsame.mids]
    rcases hcases with ⟨hne, ht⟩ | ⟨he, ht, _⟩
    · exact Or.inl ⟨ht.trans htrades, fun h => absurd h hne⟩
    · exact Or.inr ⟨ht, he⟩

/-- A flag passed every gate and reports the run it found. -/
theorem evaluate_flag {d : MomentumIgnitionDetector} {ev : SequencedEvent} {mid : UInt64}
    {f : ChaosEvent} (h : (d.evaluate ev mid).2 = some f) :
    d.runDir ≠ none ∧ d.minTrades ≤ d.tradesInWindow ∧
    ¬ (d.buyPressure = 0 ∧ d.sellPressure = 0) ∧ f.startSeq = d.runStartSeq ∧ f.endSeq = ev.seq := by
  simp only [evaluate] at h
  split at h
  · exact absurd h (by simp)
  · next dir hdir =>
    split_ifs at h with hlen htrades hmove haligned
    refine ⟨by simp [hdir], UInt64.not_lt.mp htrades, ?_, ?_⟩
    · intro hzero
      cases dir <;> simp [Aligned, hzero.1, hzero.2] at haligned
    · rw [fire] at h
      rw [← Option.some.inj h]
      exact ⟨rfl, rfl⟩

/-- A flagging step evaluated the run that the sample left. -/
theorem sampleAt_flag {d : MomentumIgnitionDetector} {ev : SequencedEvent} {mid : UInt64}
    {f : ChaosEvent} (h : (d.sampleAt ev mid).2 = some f) :
    d.sampleAt ev mid = (d.advance ev mid).evaluate ev mid := by
  simp only [sampleAt] at h ⊢
  split_ifs at h ⊢
  rfl

/-- A flag passed the trade gate, and found samples in the window. -/
theorem process_flag {d : MomentumIgnitionDetector} {ev : SequencedEvent} {f : ChaosEvent}
    (h : (d.process ev).2 = some f) :
    d.minTrades ≤ (d.process ev).1.tradesInWindow ∧ (d.process ev).1.mids ≠ [] := by
  obtain ⟨_, hmin, _⟩ := d.applied_counters ev
  rcases d.process_cases ev with hp | ⟨mid, _, hp⟩
  · rw [hp] at h
    exact absurd h (by simp)
  · obtain ⟨hslide, hcases⟩ := (d.applied ev).slide_counters ev mid
    have hsame := (d.applied ev).sameRun_sampleAt ev mid
    rw [hp] at h ⊢
    have heval := sampleAt_flag h
    have hadvance := sameRun_evaluate ((d.applied ev).advance ev mid) ev mid
    rw [← heval] at hadvance
    rw [heval] at h
    obtain ⟨_, hgate, hpressure, _⟩ := evaluate_flag h
    rw [← hadvance.minTrades, hsame.minTrades, hslide, hmin, ← hadvance.trades] at hgate
    rw [← hadvance.buys, ← hadvance.sells, hsame.buys, hsame.sells] at hpressure
    refine ⟨hgate, ?_⟩
    rw [hsame.mids]
    rcases hcases with ⟨hne, _⟩ | ⟨_, _, hb, hs⟩
    · exact hne
    · exact absurd ⟨hb, hs⟩ hpressure

/-- The trade counter has not gained more than the resolved trades. -/
theorem trades_run_le (d : MomentumIgnitionDetector) (evs : List SequencedEvent) :
    (d.run evs).tradesInWindow.toNat ≤ d.tradesInWindow.toNat + d.resolvedTrades evs := by
  induction evs generalizing d with
  | nil => simp [run, resolvedTrades]
  | cons ev evs ih =>
    have hrest := ih (d.process ev).1
    have hstep : (d.process ev).1.tradesInWindow.toNat ≤
        d.tradesInWindow.toNat + (if d.Resolves ev then 1 else 0) := by
      rcases (d.process_counters ev).2 with ⟨ht, _⟩ | ⟨ht, _⟩
      · rw [ht, UInt64.toNat_add]
        refine (Nat.mod_le _ _).trans ?_
        split_ifs <;> simp
      · simp [ht]
    simp only [run, List.foldl_cons, resolvedTrades] at hrest ⊢
    omega

/-- The samples ran out at some event, and the counters with them. -/
def Cleared (d : MomentumIgnitionDetector) (evs : List SequencedEvent) : Prop :=
  ∃ q, q <+: evs ∧ (d.run q).mids = []

/-- Once they were cleared, the counters hold nothing from before. -/
theorem trades_run_cleared {d : MomentumIgnitionDetector} (hmids : d.mids ≠ [])
    {evs : List SequencedEvent} (h : d.Cleared evs) :
    (d.run evs).tradesInWindow.toNat ≤ d.resolvedTrades evs := by
  induction evs generalizing d with
  | nil =>
    obtain ⟨q, hq, he⟩ := h
    rw [List.prefix_nil.mp hq] at he
    exact absurd he hmids
  | cons ev evs ih =>
    simp only [run, List.foldl_cons, resolvedTrades]
    rcases (d.process_counters ev).2 with ⟨_, hkept⟩ | ⟨ht, _⟩
    · have hlater : (d.process ev).1.Cleared evs := by
        obtain ⟨q, hq, he⟩ := h
        cases q with
        | nil => exact absurd he hmids
        | cons e q =>
          obtain ⟨rfl, hq'⟩ := List.cons_prefix_cons.mp hq
          exact ⟨q, hq', he⟩
      have hrest := ih (fun he => hmids (hkept he)) hlater
      simp only [run] at hrest
      omega
    · have hrest := trades_run_le (d.process ev).1 evs
      rw [ht] at hrest
      simp only [run, UInt64.toNat_zero] at hrest
      omega

/-- While samples are left the counter counts the resolved trades. -/
theorem trades_run_eq {d : MomentumIgnitionDetector} {evs : List SequencedEvent}
    (h : ¬ d.Cleared evs) (hfit : d.tradesInWindow.toNat + evs.length < 2 ^ 64) :
    (d.run evs).tradesInWindow.toNat = d.tradesInWindow.toNat + d.resolvedTrades evs := by
  induction evs generalizing d with
  | nil => simp [run, resolvedTrades]
  | cons ev evs ih =>
    rw [List.length_cons] at hfit
    have hleft : (d.process ev).1.mids ≠ [] := by
      intro he
      exact h ⟨[ev], by simp, he⟩
    have hstep : (d.process ev).1.tradesInWindow.toNat =
        d.tradesInWindow.toNat + (if d.Resolves ev then 1 else 0) := by
      rcases (d.process_counters ev).2 with ⟨ht, _⟩ | ⟨_, he⟩
      · rw [ht, UInt64.toNat_add]
        split_ifs
        · exact Nat.mod_eq_of_lt (by rw [UInt64.toNat_one]; omega)
        · exact Nat.mod_eq_of_lt (by rw [UInt64.toNat_zero]; omega)
      · exact absurd he hleft
    have hrest := ih (d := (d.process ev).1) (fun hc => by
        obtain ⟨q, hq, he⟩ := hc
        exact h ⟨ev :: q, by simpa using hq, he⟩) (by split_ifs at hstep <;> omega)
    simp only [run, List.foldl_cons, resolvedTrades] at hrest ⊢
    omega

theorem run_minTrades (d : MomentumIgnitionDetector) (evs : List SequencedEvent) :
    (d.run evs).minTrades = d.minTrades := by
  induction evs generalizing d with
  | nil => rfl
  | cons ev evs ih => exact (ih (d.process ev).1).trans (d.process_counters ev).1

end MomentumIgnitionDetector

/-- The trade gate of a second flag reads no trade of the first one when the samples ran out in
between, which alone clears the counters, or the first flag left none; and, as long as the counter
does not wrap, only then. -/
theorem flag_on_own_trades_iff (d₀ : MomentumIgnitionDetector) (p : List SequencedEvent)
    {d : MomentumIgnitionDetector} {e₁ e₂ : SequencedEvent} {m : List SequencedEvent}
    {f₁ f₂ : ChaosEvent}
    (h₁ : LastEmission MomentumIgnitionDetector.process (d₀.run p) e₁ m f₁)
    (hd : d = d₀.run (p ++ [e₁]))
    (h₂ : ((d.run m).process e₂).2 = some f₂) :
    (d.Cleared (m ++ [e₂]) ∨ d.tradesInWindow = 0 →
      d₀.minTrades.toNat ≤ d.resolvedTrades (m ++ [e₂]) ∧
        (d.run (m ++ [e₂])).tradesInWindow.toNat ≤ d.resolvedTrades (m ++ [e₂])) ∧
    (d.tradesInWindow.toNat + (m ++ [e₂]).length < 2 ^ 64 →
      (d.run (m ++ [e₂])).tradesInWindow.toNat ≤ d.resolvedTrades (m ++ [e₂]) →
      d.Cleared (m ++ [e₂]) ∨ d.tradesInWindow = 0) := by
  have hmids : d.mids ≠ [] := by
    rw [hd, MomentumIgnitionDetector.run, List.foldl_append]
    exact (MomentumIgnitionDetector.process_flag h₁.emits).2
  have hgate : d₀.minTrades.toNat ≤ (d.run (m ++ [e₂])).tradesInWindow.toNat := by
    have hle := (MomentumIgnitionDetector.process_flag h₂).1
    rw [MomentumIgnitionDetector.run_minTrades, hd, MomentumIgnitionDetector.run_minTrades,
      ← hd] at hle
    rw [MomentumIgnitionDetector.run, List.foldl_append]
    exact UInt64.le_iff_toNat_le.mp hle
  constructor
  · intro hfresh
    have hown : (d.run (m ++ [e₂])).tradesInWindow.toNat ≤ d.resolvedTrades (m ++ [e₂]) := by
      rcases hfresh with hcleared | hzero
      · exact MomentumIgnitionDetector.trades_run_cleared hmids hcleared
      · have hle := MomentumIgnitionDetector.trades_run_le d (m ++ [e₂])
        rwa [hzero, UInt64.toNat_zero, Nat.zero_add] at hle
    exact ⟨hgate.trans hown, hown⟩
  · intro hfit hown
    by_cases hcleared : d.Cleared (m ++ [e₂])
    · exact Or.inl hcleared
    · have heq := MomentumIgnitionDetector.trades_run_eq hcleared hfit
      exact Or.inr (UInt64.toNat_inj.mp (by rw [UInt64.toNat_zero]; omega))

/-- The touch, and a trade against the ask. -/
def oneTrade : List SequencedEvent :=
  [⟨1, 0, ⟨1, 10000, 10, 1, 1, 1, 0⟩, 0, 0⟩, ⟨2, 0, ⟨2, 10010, 10, 2, 1, 1, 1⟩, 0, 0⟩,
    ⟨3, 0, ⟨3, 0, 1, 2, 1, 4, 0⟩, 0, 0⟩]

/-- A trade so late that the window runs out, and one after it. -/
def clearedDrift : List SequencedEvent :=
  [⟨30, 0, ⟨30, 0, 1, 2, 1, 4, 0⟩, 0, 0⟩, ⟨31, 0, ⟨31, 0, 1, 2, 1, 4, 0⟩, 0, 0⟩]

/-- Once the window ran out, the next flag rests on a trade of its own. -/
theorem flag_on_own_trades_iff_two :
    1 ≤ ((MomentumIgnitionDetector.new 10 0 8 1 1 2 0).run
      (oneTrade ++ [⟨4, 0, ⟨4, 10004, 10, 3, 1, 1, 0⟩, 0, 0⟩])).resolvedTrades
        (clearedDrift ++ [⟨32, 0, ⟨32, 10008, 10, 4, 1, 1, 0⟩, 0, 0⟩]) := by
  have h₁ : (((MomentumIgnitionDetector.new 10 0 8 1 1 2 0).run oneTrade).process
      ⟨4, 0, ⟨4, 10004, 10, 3, 1, 1, 0⟩, 0, 0⟩).2.isSome = true := by
    simp only [MomentumIgnitionDetector.run, MomentumIgnitionDetector.process_eq_keys]
    decide
  have hquiet₁ : ((after MomentumIgnitionDetector.process
      ((MomentumIgnitionDetector.new 10 0 8 1 1 2 0).run oneTrade)
        [⟨4, 0, ⟨4, 10004, 10, 3, 1, 1, 0⟩, 0, 0⟩]).process
          ⟨30, 0, ⟨30, 0, 1, 2, 1, 4, 0⟩, 0, 0⟩).2.isNone = true := by
    simp only [MomentumIgnitionDetector.run, MomentumIgnitionDetector.process_eq_keys]
    decide
  have hquiet₂ : ((after MomentumIgnitionDetector.process
      ((MomentumIgnitionDetector.new 10 0 8 1 1 2 0).run oneTrade)
        [⟨4, 0, ⟨4, 10004, 10, 3, 1, 1, 0⟩, 0, 0⟩, ⟨30, 0, ⟨30, 0, 1, 2, 1, 4, 0⟩, 0, 0⟩]).process
          ⟨31, 0, ⟨31, 0, 1, 2, 1, 4, 0⟩, 0, 0⟩).2.isNone = true := by
    simp only [MomentumIgnitionDetector.run, MomentumIgnitionDetector.process_eq_keys]
    decide
  have hclear : (((MomentumIgnitionDetector.new 10 0 8 1 1 2 0).run
      (oneTrade ++ [⟨4, 0, ⟨4, 10004, 10, 3, 1, 1, 0⟩, 0, 0⟩])).run
        (clearedDrift.take 1)).mids.isEmpty = true := by
    simp only [MomentumIgnitionDetector.run, MomentumIgnitionDetector.process_eq_keys]
    decide
  have h₂ : ((((MomentumIgnitionDetector.new 10 0 8 1 1 2 0).run
      (oneTrade ++ [⟨4, 0, ⟨4, 10004, 10, 3, 1, 1, 0⟩, 0, 0⟩])).run clearedDrift).process
        ⟨32, 0, ⟨32, 10008, 10, 4, 1, 1, 0⟩, 0, 0⟩).2.isSome = true := by
    simp only [MomentumIgnitionDetector.run, MomentumIgnitionDetector.process_eq_keys]
    decide
  obtain ⟨f₁, hf₁⟩ := Option.isSome_iff_exists.mp h₁
  obtain ⟨f₂, hf₂⟩ := Option.isSome_iff_exists.mp h₂
  refine ((flag_on_own_trades_iff (MomentumIgnitionDetector.new 10 0 8 1 1 2 0) oneTrade
    ⟨hf₁, ?_⟩ rfl hf₂).1 (Or.inl ⟨clearedDrift.take 1, ?_, List.isEmpty_iff.mp hclear⟩)).1
  · intro q j hq
    match q, hq with
    | [], hq =>
      obtain rfl : j = ⟨30, 0, ⟨30, 0, 1, 2, 1, 4, 0⟩, 0, 0⟩ := by
        simpa [clearedDrift, List.cons_prefix_cons] using hq
      exact Option.isNone_iff_eq_none.mp hquiet₁
    | [k], hq =>
      obtain ⟨rfl, rfl⟩ : k = ⟨30, 0, ⟨30, 0, 1, 2, 1, 4, 0⟩, 0, 0⟩ ∧
          j = ⟨31, 0, ⟨31, 0, 1, 2, 1, 4, 0⟩, 0, 0⟩ := by
        simpa [clearedDrift, List.cons_prefix_cons] using hq
      exact Option.isNone_iff_eq_none.mp hquiet₂
    | k :: l :: q, hq => simp [clearedDrift, List.cons_prefix_cons] at hq
  · exact (List.take_prefix 1 clearedDrift).trans (List.prefix_append clearedDrift _)

/-- Two trades lift the pressure of a drift that is flagged. -/
def twoTrades : List SequencedEvent :=
  [⟨1, 0, ⟨1, 10000, 10, 1, 1, 1, 0⟩, 0, 0⟩, ⟨2, 0, ⟨2, 10010, 10, 2, 1, 1, 1⟩, 0, 0⟩,
    ⟨3, 0, ⟨3, 0, 1, 2, 1, 4, 0⟩, 0, 0⟩, ⟨4, 0, ⟨4, 0, 1, 2, 1, 4, 0⟩, 0, 0⟩]

/-- The next tick of the drift is flagged again, on the same two trades. -/
theorem flag_on_old_trades :
    ∃ f₁ f₂, LastEmission MomentumIgnitionDetector.process
        ((MomentumIgnitionDetector.new 1000 0 8 1 2 2 0).run twoTrades)
        ⟨5, 0, ⟨5, 10004, 10, 3, 1, 1, 0⟩, 0, 0⟩ [] f₁ ∧
      (((MomentumIgnitionDetector.new 1000 0 8 1 2 2 0).run
        (twoTrades ++ [⟨5, 0, ⟨5, 10004, 10, 3, 1, 1, 0⟩, 0, 0⟩])).process
          ⟨6, 0, ⟨6, 10008, 10, 4, 1, 1, 0⟩, 0, 0⟩).2 = some f₂ ∧
      ((MomentumIgnitionDetector.new 1000 0 8 1 2 2 0).run
        (twoTrades ++ [⟨5, 0, ⟨5, 10004, 10, 3, 1, 1, 0⟩, 0, 0⟩])).resolvedTrades
          [⟨6, 0, ⟨6, 10008, 10, 4, 1, 1, 0⟩, 0, 0⟩] < 2 := by
  have h₁ : (((MomentumIgnitionDetector.new 1000 0 8 1 2 2 0).run twoTrades).process
      ⟨5, 0, ⟨5, 10004, 10, 3, 1, 1, 0⟩, 0, 0⟩).2.isSome = true := by
    simp only [MomentumIgnitionDetector.run, MomentumIgnitionDetector.process_eq_keys]
    decide
  have h₂ : (((MomentumIgnitionDetector.new 1000 0 8 1 2 2 0).run
      (twoTrades ++ [⟨5, 0, ⟨5, 10004, 10, 3, 1, 1, 0⟩, 0, 0⟩])).process
        ⟨6, 0, ⟨6, 10008, 10, 4, 1, 1, 0⟩, 0, 0⟩).2.isSome = true := by
    simp only [MomentumIgnitionDetector.run, MomentumIgnitionDetector.process_eq_keys]
    decide
  obtain ⟨f₁, hf₁⟩ := Option.isSome_iff_exists.mp h₁
  obtain ⟨f₂, hf₂⟩ := Option.isSome_iff_exists.mp h₂
  exact ⟨f₁, f₂, ⟨hf₁, by simp⟩, hf₂, by decide⟩

end Flowlab.Chaos
