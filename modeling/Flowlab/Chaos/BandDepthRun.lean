import Flowlab.Chaos.BandDepth

namespace Flowlab.Chaos

open Std Framework
open Flowlab.Core (Event EventType Side OrderMeta SequencedEvent)

namespace FlashCrashDetector

/-! Whole runs. -/

/-- Two detectors with the same book and caches. -/
structure SameCaches (d d' : FlashCrashDetector) : Prop where
  same : SameButBest d d'
  bb : d'.cachedBb = d.cachedBb
  ba : d'.cachedBa = d.cachedBa

theorem SameCaches.refl (d : FlashCrashDetector) : SameCaches d d := ⟨⟨rfl, rfl, rfl, rfl⟩, rfl, rfl⟩

theorem SameCaches.held {d d' : FlashCrashDetector} (hs : SameCaches d d') : d'.held = d.held := by
  simp only [FlashCrashDetector.held, levels, hs.same.book]

theorem SameCaches.cachedBest {d d' : FlashCrashDetector} (hs : SameCaches d d') (s : Side) :
    d'.cachedBest s = d.cachedBest s := by
  cases s
  · exact hs.bb
  · exact hs.ba

theorem SameCaches.cachesHold {d d' : FlashCrashDetector} (hs : SameCaches d d')
    (h : d.CachesHold) : d'.CachesHold := by
  have hlevels (s : Side) : d'.levels s = d.levels s := by rw [levels, hs.same.book, levels]
  have hbest := hs.cachedBest
  refine ⟨hs.same.book ▸ h.cap, ?_, ?_, hs.held.trans_lt h.fits, hs.same.book ▸ h.sided, ?_⟩
  · intro s
    rw [hbest, hlevels]
    exact h.best s
  · intro s
    rw [hlevels, hs.same.book]
    exact h.sizes s
  · intro hv hsome
    rw [hs.same.depth, bandOf_congr (hbest .bid) (hlevels .bid) hs.same.ticks,
      bandOf_congr (hbest .ask) (hlevels .ask) hs.same.ticks]
    exact h.depth (hs.same.valid ▸ hv) (fun s => hbest s ▸ hsome s)

theorem CachesHold.setTracker {d : FlashCrashDetector} (h : d.CachesHold) {t : OrderTracker}
    (ht : t.Sided) : ({ d with orderTracker := t } : FlashCrashDetector).CachesHold where
  cap := h.cap
  best := h.best
  sizes := h.sizes
  fits := h.fits
  sided := ht
  depth hv hsome := h.depth hv hsome

/-- What both reads of the depth amount to. -/
theorem CachesHold.depthInBandAround_eq {d : FlashCrashDetector} (h : d.CachesHold) {bb ba : UInt64}
    (hbb : d.cachedBb = some bb) (hba : d.cachedBa = some ba) :
    (d.depthInBandAround bb ba).toNat = d.bandOf .bid + d.bandOf .ask := by
  rw [depthInBandAround_toNat h.fits, bandOf_eq (s := .bid) hbb, bandOf_eq (s := .ask) hba]
  rfl

theorem CachesHold.depthInBand {d : FlashCrashDetector} (h : d.CachesHold) :
    d.depthInBand.1.CachesHold := by
  simp only [FlashCrashDetector.depthInBand]
  split_ifs
  · exact h
  · refine ⟨h.cap, h.best, h.sizes, h.fits, h.sided, ?_⟩
    intro _ hsome
    obtain ⟨bb, hbb⟩ := Option.ne_none_iff_exists'.mp (hsome .bid)
    obtain ⟨ba, hba⟩ := Option.ne_none_iff_exists'.mp (hsome .ask)
    change d.cachedBb = some bb at hbb
    change d.cachedBa = some ba at hba
    refine Eq.trans ?_ (h.depthInBandAround_eq hbb hba)
    simp only [hbb, hba]

theorem sameCaches_pushSnap (d : FlashCrashDetector) (snap : TopSnapshot) :
    SameCaches d (d.pushSnap snap) := by
  simp only [pushSnap]
  split_ifs <;> exact ⟨⟨rfl, rfl, rfl, rfl⟩, rfl, rfl⟩

theorem CachesHold.snapBefore {d : FlashCrashDetector} (h : d.CachesHold) (ev : SequencedEvent) :
    (d.snapBefore ev).CachesHold := by
  simp only [FlashCrashDetector.snapBefore]
  split
  · exact h
  · exact (sameCaches_pushSnap _ _).cachesHold h.depthInBand

theorem sameCaches_detect (d : FlashCrashDetector) (ev : SequencedEvent) :
    SameCaches d (d.detect ev).1 := by
  simp only [detect]
  split
  · exact SameCaches.refl d
  · split_ifs
    · exact ⟨⟨rfl, rfl, rfl, rfl⟩, rfl, rfl⟩
    · split
      · exact SameCaches.refl d
      · split_ifs <;> exact ⟨⟨rfl, rfl, rfl, rfl⟩, rfl, rfl⟩

theorem sameCaches_countAggressor (d : FlashCrashDetector) (a : AggressorSide) :
    SameCaches d (d.countAggressor a) := by
  cases a <;> exact ⟨⟨rfl, rfl, rfl, rfl⟩, rfl, rfl⟩

theorem CachesHold.mutate {d : FlashCrashDetector} (h : d.CachesHold) (etype : EventType) (e : Event)
    (hroom : etype = .orderAdd → d.held + e.qty.toNat < 2 ^ 64) : (d.mutate etype e).CachesHold := by
  cases etype with
  | orderAdd =>
    obtain ⟨hsided, hupdate⟩ := OrderTracker.sided_onAdd h.sided e
    simp only [FlashCrashDetector.mutate]
    split
    · next u hu =>
      obtain ⟨hqty, s, hs⟩ := hupdate u hu
      rw [hs]
      refine (h.setTracker hsided).addQty s u.price u.qty ?_
      rw [hqty]
      exact hroom rfl
    · exact h.setTracker hsided
  | orderCancel =>
    obtain ⟨hsided, hupdate⟩ := OrderTracker.sided_onCancel h.sided e
    simp only [FlashCrashDetector.mutate]
    split
    · next u hu =>
      obtain ⟨s, hs⟩ := hupdate u hu
      rw [hs]
      exact (h.setTracker hsided).subQty s u.price u.qty
    · exact h.setTracker hsided
  | orderModify => exact h
  | trade =>
    obtain ⟨hsided, hupdate⟩ := OrderTracker.sided_onTrade h.sided e
    simp only [FlashCrashDetector.mutate]
    split
    · next t ht =>
      obtain ⟨s, hs⟩ := hupdate t ht
      rw [hs]
      exact ((sameCaches_countAggressor _ _).cachesHold (h.setTracker hsided)).subQty s _ _
    · exact h.setTracker hsided
  | bookSnapshot => exact h

theorem held_snapBefore (d : FlashCrashDetector) (ev : SequencedEvent) :
    (d.snapBefore ev).held = d.held := by
  simp only [held, levels, snapBefore_book]

theorem CachesHold.process {d : FlashCrashDetector} (h : d.CachesHold) (ev : SequencedEvent)
    (hroom : EventType.fromU8 ev.event.eventType = some .orderAdd →
      d.held + ev.event.qty.toNat < 2 ^ 64) : (d.process ev).1.CachesHold := by
  simp only [FlashCrashDetector.process]
  split
  · exact h
  · exact h.snapBefore ev
  · next etype _ ht =>
    refine (sameCaches_detect _ ev).cachesHold ((h.snapBefore ev).mutate etype ev.event ?_)
    intro hadd
    rw [held_snapBefore]
    exact hroom (ht.trans (congrArg some hadd))

end FlashCrashDetector

/-- One call on the detector. -/
inductive CrashCall where
  | process (ev : SequencedEvent)
  | depthInBand

namespace FlashCrashDetector

def call (d : FlashCrashDetector) : CrashCall → FlashCrashDetector
  | .process ev => (d.process ev).1
  | .depthInBand => d.depthInBand.1

def calls (d : FlashCrashDetector) (cs : List CrashCall) : FlashCrashDetector := cs.foldl call d

/-- The quantity that a call adds still fits with what both sides hold. -/
def Room (d : FlashCrashDetector) : CrashCall → Prop
  | .process ev => EventType.fromU8 ev.event.eventType = some .orderAdd →
      d.held + ev.event.qty.toNat < 2 ^ 64
  | .depthInBand => True

instance (d : FlashCrashDetector) (c : CrashCall) : Decidable (d.Room c) := by
  cases c
  · exact inferInstanceAs (Decidable (_ → _))
  · exact inferInstanceAs (Decidable True)

theorem CachesHold.call {d : FlashCrashDetector} (h : d.CachesHold) (c : CrashCall)
    (hroom : d.Room c) : (d.call c).CachesHold := by
  cases c with
  | process ev => exact h.process ev hroom
  | depthInBand => exact h.depthInBand

theorem CachesHold.touch {d : FlashCrashDetector} (h : d.CachesHold) :
    d.cachedBb = d.bids.maxKey? ∧ d.cachedBa = d.asks.minKey? := ⟨h.best .bid, h.best .ask⟩

end FlashCrashDetector

/-- In every state reached by events and depth reads, with the quantities on both sides below 2^64
throughout, the cached touch is the book's, and with both sides present a valid cached depth, and so
every depth that is read, is the recomputed one. -/
theorem cached_depth_recomputed (minGapBps gapWindowEvents : UInt32) {maxBookLevels : Nat}
    (hcap : 1 ≤ maxBookLevels) (depthBandTicks : UInt64) (depthDropPct : Float)
    (minAggrTrades : UInt32) (cooldownSeq : UInt64) (cs : List CrashCall)
    {d₀ d : FlashCrashDetector}
    (hd₀ : d₀ = .new minGapBps gapWindowEvents maxBookLevels depthBandTicks depthDropPct minAggrTrades
      cooldownSeq)
    (hroom : ∀ n : Fin cs.length, (d₀.calls (cs.take n)).Room (cs.get n)) (hd : d = d₀.calls cs) :
    d.cachedBb = d.bids.maxKey? ∧ (d.cachedBb = none ↔ d.bids.isEmpty) ∧
    d.cachedBa = d.asks.minKey? ∧ (d.cachedBa = none ↔ d.asks.isEmpty) ∧
    ∀ bb ba, d.bids.maxKey? = some bb → d.asks.minKey? = some ba →
      (d.bandDepthValid = true → d.bandDepth = d.depthInBandAround bb ba) ∧
      d.depthInBand.2 = d.depthInBandAround bb ba := by
  have hok (p : List CrashCall) (c : CrashCall) (hp : p ++ [c] <+: cs) : (d₀.calls p).Room c :=
    Machine.steps_of_get (P := fun p c => (d₀.calls p).Room c) hroom hp
  have h : d.CachesHold := by
    rw [hd]
    refine Machine.foldl_rule (P := FlashCrashDetector.CachesHold)
      (fun d c h hc => h.call c hc) ?_ cs hok
    rw [hd₀]
    exact FlashCrashDetector.cachesHold_new minGapBps gapWindowEvents hcap depthBandTicks depthDropPct
      minAggrTrades cooldownSeq
  obtain ⟨hbb, hba⟩ := h.touch
  refine ⟨hbb, by rw [hbb]; simp, hba, by rw [hba]; simp, ?_⟩
  intro bb ba hb ha
  rw [hb] at hbb
  rw [ha] at hba
  have hvalid (hv : d.bandDepthValid = true) : d.bandDepth = d.depthInBandAround bb ba := by
    apply UInt64.toNat_inj.mp
    rw [h.depthInBandAround_eq hbb hba]
    refine h.depth hv (fun s => ?_)
    cases s
    · rw [show d.cachedBest .bid = some bb from hbb]
      simp
    · rw [show d.cachedBest .ask = some ba from hba]
      simp
  refine ⟨hvalid, ?_⟩
  simp only [FlashCrashDetector.depthInBand, hbb, hba]
  split_ifs with hv
  · exact hvalid hv
  · rfl

/-- Three adds in a detector with a band of 1. -/
def threeAdds : FlashCrashDetector :=
  (FlashCrashDetector.new 10 4 8 1 0.5 1 0).calls
    [.process ⟨1, 0, ⟨1, 100, 5, 11, 1, 1, 0⟩, 0, 0⟩, .process ⟨2, 0, ⟨2, 101, 7, 12, 1, 1, 1⟩, 0, 0⟩,
      .process ⟨3, 0, ⟨3, 98, 2, 13, 1, 1, 0⟩, 0, 0⟩]

theorem cached_depth_recomputed_three :
    threeAdds.depthInBand.2 = threeAdds.depthInBandAround 100 101 := by
  have h := cached_depth_recomputed 10 4 (by decide) 1 0.5 1 0
    [.process ⟨1, 0, ⟨1, 100, 5, 11, 1, 1, 0⟩, 0, 0⟩, .process ⟨2, 0, ⟨2, 101, 7, 12, 1, 1, 1⟩, 0, 0⟩,
      .process ⟨3, 0, ⟨3, 98, 2, 13, 1, 1, 0⟩, 0, 0⟩] rfl (by decide) (d := threeAdds) rfl
  exact (h.2.2.2.2 100 101 (h.1.symm.trans rfl) (h.2.2.1.symm.trans rfl)).2

end Flowlab.Chaos
