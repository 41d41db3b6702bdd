import Flowlab.Chaos.OrderTracker

namespace Flowlab.Chaos

open Flowlab.Core (Event EventType SequencedEvent satSub64)

/-- `SNAP_CAP`. -/
def snapCap : Nat := 16

/-- Top of book just before an event was applied. -/
structure TopSnapshot where
  seq : UInt64
  ts : UInt64
  mid : UInt64
  bestBid : UInt64
  bestAsk : UInt64
  depthInBand : UInt64
  deriving DecidableEq, Repr

/-- `TopSnapshot::default()`. -/
instance : Inhabited TopSnapshot := ⟨⟨0, 0, 0, 0, 0, 0⟩⟩

inductive CrashDir where
  | down
  | up
  deriving DecidableEq, Repr

/-- The detector of `flash_crash.rs`: its own book, the cached touch and band depth, and the ring of
snapshots. -/
structure FlashCrashDetector extends MiniBook where
  cachedBb : Option UInt64
  cachedBa : Option UInt64
  snaps : Vector TopSnapshot snapCap
  snapHead : UInt8
  snapLen : UInt8
  bandDepth : UInt64
  bandDepthValid : Bool
  minGapBps : UInt32
  gapWindowEvents : UInt32
  depthBandTicks : UInt64
  depthDropPct : Float
  minAggrTrades : UInt32
  cooldownSeq : UInt64
  buyAggr : UInt32
  sellAggr : UInt32
  refractoryUntil : UInt64

namespace FlashCrashDetector

def new (minGapBps gapWindowEvents : UInt32) (maxBookLevels : Nat) (depthBandTicks : UInt64)
    (depthDropPct : Float) (minAggrTrades : UInt32) (cooldownSeq : UInt64) :
    FlashCrashDetector where
  toMiniBook := .new maxBookLevels
  cachedBb := none
  cachedBa := none
  snaps := Vector.replicate snapCap default
  snapHead := 0
  snapLen := 0
  bandDepth := 0
  bandDepthValid := true
  minGapBps := minGapBps
  gapWindowEvents := gapWindowEvents
  depthBandTicks := depthBandTicks
  depthDropPct := depthDropPct
  minAggrTrades := minAggrTrades
  cooldownSeq := cooldownSeq
  buyAggr := 0
  sellAggr := 0
  refractoryUntil := 0

/-- The cached touch stands in for the book's. -/
def midprice (d : FlashCrashDetector) : Option UInt64 := MiniBook.mid d.cachedBb d.cachedBa

/-- Quantity between two prices, both included, as a `u64` sum. -/
def rangeSum (t : Std.ExtTreeMap UInt64 UInt64) (lo hi : UInt64) : UInt64 :=
  t.foldl (fun s p q => if lo ≤ p ∧ p ≤ hi then s + q else s) 0

/-- Depth in the band around a given touch. -/
def depthInBandAround (d : FlashCrashDetector) (bb ba : UInt64) : UInt64 :=
  satAdd64 (rangeSum d.bids (satSub64 bb d.depthBandTicks) bb)
    (rangeSum d.asks ba (satAdd64 ba d.depthBandTicks))

/-- Answers from the cache while it is valid, else recomputes and caches. -/
def depthInBand (d : FlashCrashDetector) : FlashCrashDetector × UInt64 :=
  if d.bandDepthValid then (d, d.bandDepth)
  else
    let depth := match d.cachedBb, d.cachedBa with
      | some bb, some ba => d.depthInBandAround bb ba
      | _, _ => 0
    ({ d with bandDepth := depth, bandDepthValid := true }, depth)

/-- The ring keeps the last `gap_window_events + 1` snapshots. -/
def pushSnap (d : FlashCrashDetector) (snap : TopSnapshot) : FlashCrashDetector :=
  let cap := d.gapWindowEvents.toNat + 1
  let idx := d.snapHead.toNat
  let d := { d with
    snaps := d.snaps.set! idx snap
    snapHead := UInt8.ofNat ((idx + 1) % snapCap) }
  if d.snapLen.toNat < cap then { d with snapLen := d.snapLen + 1 } else d

/-- Snapshot of the touch before the event; skipped while the mid is undefined. -/
def snapBefore (d : FlashCrashDetector) (ev : SequencedEvent) : FlashCrashDetector :=
  match d.midprice with
  | none => d
  | some m =>
    let bb := d.cachedBb.getD 0
    let ba := d.cachedBa.getD 0
    let r := d.depthInBand
    r.1.pushSnap ⟨ev.seq, ev.event.ts, m, bb, ba, r.2⟩

/-- Only the slice of the band on the side of the mutation can change. -/
def inBandSameSide (d : FlashCrashDetector) (side : UInt8) (price : UInt64) : Bool :=
  if side = 0 then
    match d.cachedBb with
    | some bb => decide (satSub64 bb d.depthBandTicks ≤ price) && decide (price ≤ bb)
    | none => false
  else
    match d.cachedBa with
    | some ba => decide (ba ≤ price) && decide (price ≤ satAdd64 ba d.depthBandTicks)
    | none => false

/-- An add can only improve the cached best of its side; the flag says whether it did. -/
def improveBest (d : FlashCrashDetector) (side : UInt8) (price : UInt64) :
    FlashCrashDetector × Bool :=
  if side = 0 then
    match d.cachedBb with
    | some bb => if bb < price then ({ d with cachedBb := some price }, true) else (d, false)
    | none => ({ d with cachedBb := some price }, true)
  else
    match d.cachedBa with
    | some ba => if price < ba then ({ d with cachedBa := some price }, true) else (d, false)
    | none => ({ d with cachedBa := some price }, true)

def addQty (d : FlashCrashDetector) (side : UInt8) (price qty : UInt64) : FlashCrashDetector :=
  let book := (d.toMiniBook.book side).insert price ((d.toMiniBook.book side)[price]?.getD 0 + qty)
  let pruned := decide (book.size ≠ (pruneLevels book side d.maxBookLevels).size)
  let d := { d with toMiniBook := d.toMiniBook.addQty side price qty }
  let r := d.improveBest side price
  let d := r.1
  if r.2 || pruned then { d with bandDepthValid := false }
  else if d.bandDepthValid && d.inBandSameSide side price then
    { d with bandDepth := satAdd64 d.bandDepth qty }
  else d

/-- The best moves away only when its own level was emptied. -/
def retreatBest (d : FlashCrashDetector) (side : UInt8) (price : UInt64) :
    FlashCrashDetector × Bool :=
  if side = 0 ∧ d.cachedBb = some price then ({ d with cachedBb := d.toMiniBook.bestBid }, true)
  else if side = 1 ∧ d.cachedBa = some price then ({ d with cachedBa := d.toMiniBook.bestAsk }, true)
  else (d, false)

def subQty (d : FlashCrashDetector) (side : UInt8) (price qty : UInt64) : FlashCrashDetector :=
  let removed : UInt64 := match (d.toMiniBook.book side)[price]? with
    | some entry => if qty = 0 then entry else min qty entry
    | none => 0
  let levelEmptied := decide ((d.toMiniBook.book side)[price]? = some removed)
  let d := { d with toMiniBook := d.toMiniBook.subQty side price qty }
  let r := if levelEmptied then d.retreatBest side price else (d, false)
  let d := r.1
  if r.2 then { d with bandDepthValid := false }
  else if d.bandDepthValid && decide (0 < removed) && d.inBandSameSide side price then
    { d with bandDepth := satSub64 d.bandDepth removed }
  else d

def countAggressor (d : FlashCrashDetector) : AggressorSide → FlashCrashDetector
  | .buy => { d with buyAggr := satAdd32 d.buyAggr 1 }
  | .sell => { d with sellAggr := satAdd32 d.sellAggr 1 }

/-- The event's effect on the book, its caches and the counters. -/
def mutate (d : FlashCrashDetector) (etype : EventType) (e : Event) : FlashCrashDetector :=
  match etype with
  | .orderAdd =>
    let r := d.orderTracker.onAdd e
    let d := { d with orderTracker := r.1 }
    match r.2 with
    | some u => d.addQty u.side u.price u.qty
    | none => d
  | .orderCancel =>
    let r := d.orderTracker.onCancel e
    let d := { d with orderTracker := r.1 }
    match r.2 with
    | some u => d.subQty u.side u.price u.qty
    | none => d
  | .orderModify => d
  | .trade =>
    let r := d.orderTracker.onTrade e
    let d := { d with orderTracker := r.1 }
    match r.2 with
    | some t => (d.countAggressor t.aggressor).subQty t.update.side t.update.price t.update.qty
    | none => d
  | .bookSnapshot => d

/-- The first snapshot, oldest first, inside the gap window from which the mid has moved enough. -/
def findGap (d : FlashCrashDetector) (seq midAfter : UInt64) :
    Option (TopSnapshot × CrashDir × UInt32) :=
  (List.range d.snapLen.toNat).findSome? fun i =>
    let idx := (d.snapHead.toNat + snapCap - d.snapLen.toNat + i) % snapCap
    let snap := d.snaps.getD idx default
    let span := satSub64 seq snap.seq
    if span = 0 ∨ d.gapWindowEvents.toNat < span.toNat then none
    else
      let bps := bpsMove snap.mid midAfter
      if bps < d.minGapBps then none
      else some (snap, if midAfter < snap.mid then .down else .up, bps)

/-- Depth lost since the snapshot, as a share of the depth then. -/
def depthDrop (depthThen depthNow : UInt64) : Float :=
  (depthThen - min depthNow depthThen).toFloat / depthThen.toFloat

def DropOk (d : FlashCrashDetector) (depthThen depthNow : UInt64) : Bool :=
  if d.depthDropPct == 0.0 then true
  else if depthThen = 0 then false
  else decide (d.depthDropPct ≤ depthDrop depthThen depthNow)

def alignedCount (d : FlashCrashDetector) : CrashDir → UInt32
  | .down => d.sellAggr
  | .up => d.buyAggr

def severity (d : FlashCrashDetector) (dir : CrashDir) (gapBps : UInt32)
    (depthThen depthNow : UInt64) : Float :=
  let totalAggr := max (d.buyAggr + d.sellAggr) 1
  let imbalance := (d.alignedCount dir).toFloat / totalAggr.toFloat
  let moveScore := clampF64 (gapBps.toFloat / (d.minGapBps.toFloat * 4.0)) 0.0 1.0
  let depthScore := if 0 < depthThen then clampF64 (depthDrop depthThen depthNow) 0.0 1.0 else 0.0
  clampF64 (0.5 * moveScore + 0.3 * depthScore + 0.2 * imbalance) 0.0 1.0

/-- The flag for a gap that passed every gate; counters and snapshots start over. -/
def fire (d : FlashCrashDetector) (ev : SequencedEvent) (midAfter : UInt64) (snap : TopSnapshot)
    (dir : CrashDir) (gapBps : UInt32) (depthNow : UInt64) :
    FlashCrashDetector × Option ChaosEvent :=
  ({ d with
      refractoryUntil := satAdd64 ev.seq d.cooldownSeq
      buyAggr := 0
      sellAggr := 0
      snapLen := 0 },
    some
      { kind := .flashCrash
        startSeq := snap.seq
        endSeq := ev.seq
        startTsNs := snap.ts
        endTsNs := ev.event.ts
        severity := d.severity dir gapBps snap.depthInBand depthNow
        initiator := none
        features :=
          { eventCount := ev.seq - snap.seq
            durationNs := satSub64 ev.event.ts snap.ts
            cancelTradeRatio := 0.0
            priceDisplacement := midAfter.toInt64 - snap.mid.toInt64
            depthRemoved := satSub64 snap.depthInBand depthNow } })

/-- Depth is compared in the band of the snapshot, not in one that slides with the new touch. -/
def detect (d : FlashCrashDetector) (ev : SequencedEvent) :
    FlashCrashDetector × Option ChaosEvent :=
  match d.midprice with
  | none => (d, none)
  | some midAfter =>
    if ev.seq < d.refractoryUntil then ({ d with buyAggr := 0, sellAggr := 0 }, none)
    else
      match d.findGap ev.seq midAfter with
      | none => (d, none)
      | some (snap, dir, gapBps) =>
        let depthNow := d.depthInBandAround snap.bestBid snap.bestAsk
        if ¬ d.DropOk snap.depthInBand depthNow then (d, none)
        else if d.alignedCount dir < d.minAggrTrades then (d, none)
        else d.fire ev midAfter snap dir gapBps depthNow

def process (d : FlashCrashDetector) (ev : SequencedEvent) :
    FlashCrashDetector × Option ChaosEvent :=
  match EventType.fromU8 ev.event.eventType with
  | none => (d, none)
  | some .bookSnapshot => (d.snapBefore ev, none)
  | some etype => ((d.snapBefore ev).mutate etype ev.event).detect ev

def run (d : FlashCrashDetector) (evs : List SequencedEvent) : FlashCrashDetector :=
  evs.foldl (fun d ev => (d.process ev).1) d

theorem snapBefore_book (d : FlashCrashDetector) (ev : SequencedEvent) :
    (d.snapBefore ev).toMiniBook = d.toMiniBook := by
  simp only [snapBefore]
  split
  · rfl
  · simp only [pushSnap, depthInBand]
    split_ifs <;> rfl

theorem improveBest_book (d : FlashCrashDetector) (side : UInt8) (price : UInt64) :
    (d.improveBest side price).1.toMiniBook = d.toMiniBook := by
  simp only [improveBest]
  split_ifs
  · split
    · split_ifs <;> rfl
    · rfl
  · split
    · split_ifs <;> rfl
    · rfl

/-- The caches ride along: the book changes as in the other detectors. -/
theorem addQty_book (d : FlashCrashDetector) (side : UInt8) (price qty : UInt64) :
    (d.addQty side price qty).toMiniBook = d.toMiniBook.addQty side price qty := by
  simp only [addQty]
  split_ifs
  · exact improveBest_book _ side price
  · exact improveBest_book _ side price
  · exact improveBest_book _ side price

theorem retreatBest_book (d : FlashCrashDetector) (side : UInt8) (price : UInt64) :
    (d.retreatBest side price).1.toMiniBook = d.toMiniBook := by
  simp only [retreatBest]
  split_ifs <;> rfl

theorem subQty_book (d : FlashCrashDetector) (side : UInt8) (price qty : UInt64) :
    (d.subQty side price qty).toMiniBook = d.toMiniBook.subQty side price qty := by
  simp only [subQty]
  split_ifs
  all_goals first
    | exact retreatBest_book _ side price
    | rfl

theorem countAggressor_book (d : FlashCrashDetector) (a : AggressorSide) :
    (d.countAggressor a).toMiniBook = d.toMiniBook := by
  cases a <;> rfl

theorem detect_book (d : FlashCrashDetector) (ev : SequencedEvent) :
    (d.detect ev).1.toMiniBook = d.toMiniBook := by
  simp only [detect]
  split
  · rfl
  · split_ifs
    · rfl
    · split
      · rfl
      · split_ifs <;> rfl

theorem mutate_orderAdd_book (d : FlashCrashDetector) (e : Event) :
    (d.mutate .orderAdd e).toMiniBook = d.toMiniBook.onAdd e := by
  simp only [mutate, MiniBook.onAdd]
  cases (d.orderTracker.onAdd e).2 with
  | none => rfl
  | some u => exact addQty_book _ u.side u.price u.qty

theorem mutate_orderCancel_book (d : FlashCrashDetector) (e : Event) :
    (d.mutate .orderCancel e).toMiniBook = d.toMiniBook.onCancel e := by
  simp only [mutate, MiniBook.onCancel]
  cases (d.orderTracker.onCancel e).2 with
  | none => rfl
  | some u => exact subQty_book _ u.side u.price u.qty

theorem mutate_trade_book (d : FlashCrashDetector) (e : Event) :
    (d.mutate .trade e).toMiniBook = (d.toMiniBook.onTrade e).1 := by
  simp only [mutate, MiniBook.onTrade]
  cases (d.orderTracker.onTrade e).2 with
  | none => rfl
  | some t =>
    refine (subQty_book _ t.update.side t.update.price t.update.qty).trans ?_
    rw [countAggressor_book]

theorem process_book (d : FlashCrashDetector) (ev : SequencedEvent) :
    (d.process ev).1.toMiniBook = d.toMiniBook.apply ev.event := by
  have hsnap := d.snapBefore_book ev
  simp only [process, MiniBook.apply]
  cases ht : EventType.fromU8 ev.event.eventType with
  | none => rfl
  | some t =>
    cases t with
    | orderAdd => rw [detect_book, mutate_orderAdd_book, hsnap]
    | orderCancel => rw [detect_book, mutate_orderCancel_book, hsnap]
    | orderModify => exact (detect_book _ ev).trans hsnap
    | trade => rw [detect_book, mutate_trade_book, hsnap]
    | bookSnapshot => exact hsnap

end FlashCrashDetector

end Flowlab.Chaos
