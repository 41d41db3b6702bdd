import Flowlab.Chaos.OrderTracker

namespace Flowlab.Chaos

open Flowlab.Core (Event EventType SequencedEvent satSub64)

inductive TakerDir where
  | buy
  | sell
  deriving DecidableEq, Repr

/-- A large print that waits for a reaction on the opposite side. -/
structure PendingTrigger where
  seq : UInt64
  ts : UInt64
  price : UInt64
  qty : UInt64
  dir : TakerDir
  midAtTrade : UInt64
  burstCount : UInt32
  lastBurstSeq : UInt64
  lastBurstTs : UInt64
  burstQualified : Bool
  deriving DecidableEq, Repr

/-- The detector of `latency_arb_proxy.rs`: its own book and the pending triggers, oldest first. -/
structure LatencyArbProxyDetector extends MiniBook where
  pending : List PendingTrigger
  reactionSeq : UInt64
  reactionTimeNs : UInt64
  bandTicks : UInt64
  minTradeQty : UInt64
  minBurst : UInt32
  requireReversion : Bool
  reversionBps : UInt32
  cooldownSeq : UInt64
  refractoryUntil : UInt64

namespace LatencyArbProxyDetector

def new (reactionSeq reactionTimeNs : UInt64) (maxBookLevels : Nat) (bandTicks minTradeQty : UInt64)
    (minBurst : UInt32) (requireReversion : Bool) (reversionBps : UInt32) (cooldownSeq : UInt64) :
    LatencyArbProxyDetector where
  toMiniBook := .new maxBookLevels
  pending := []
  reactionSeq := reactionSeq
  reactionTimeNs := reactionTimeNs
  bandTicks := bandTicks
  minTradeQty := minTradeQty
  minBurst := minBurst
  requireReversion := requireReversion
  reversionBps := reversionBps
  cooldownSeq := cooldownSeq
  refractoryUntil := 0

/-- The event's effect on the book, with the trade it resolved to. -/
def mutate (d : LatencyArbProxyDetector) (etype : EventType) (e : Event) :
    LatencyArbProxyDetector × Option ResolvedTrade :=
  match etype with
  | .orderAdd => ({ d with toMiniBook := d.toMiniBook.onAdd e }, none)
  | .orderCancel => ({ d with toMiniBook := d.toMiniBook.onCancel e }, none)
  | .orderModify => (d, none)
  | .trade =>
    let r := d.toMiniBook.onTrade e
    ({ d with toMiniBook := r.1 }, r.2)
  | .bookSnapshot => (d, none)

def takerDir : AggressorSide → TakerDir
  | .buy => .buy
  | .sell => .sell

/-- A large print outside the refractory period seeds a trigger; at most 64 are kept. -/
def seed (d : LatencyArbProxyDetector) (ev : SequencedEvent) (resolvedTrade : Option ResolvedTrade)
    (midBefore : Option UInt64) : LatencyArbProxyDetector :=
  if ev.seq < d.refractoryUntil then d
  else
    match resolvedTrade, midBefore with
    | some trade, some m =>
      if d.minTradeQty ≤ trade.update.qty then
        let trig : PendingTrigger :=
          { seq := ev.seq
            ts := ev.event.ts
            price := trade.update.price
            qty := trade.update.qty
            dir := takerDir trade.aggressor
            midAtTrade := m
            burstCount := 0
            lastBurstSeq := ev.seq
            lastBurstTs := ev.event.ts
            burstQualified := false }
        let pending := d.pending ++ [trig]
        { d with pending := if 64 < pending.length then pending.tail else pending }
      else d
    | _, _ => d

def insideWindow (d : LatencyArbProxyDetector) (ev : SequencedEvent) (trig : PendingTrigger) : Bool :=
  (decide (0 < d.reactionSeq) && decide (satSub64 ev.seq trig.seq ≤ d.reactionSeq)) ||
    (decide (0 < d.reactionTimeNs) && decide (satSub64 ev.event.ts trig.ts ≤ d.reactionTimeNs))

/-- A buy print hits the asks, so its reaction is awaited on the bids. -/
def wantSide : TakerDir → UInt8
  | .buy => 0
  | .sell => 1

/-- An add or cancel on the wanted side, inside the price band. -/
def qualifies (d : LatencyArbProxyDetector) (etype : EventType) (e : Event)
    (trig : PendingTrigger) : Bool :=
  (etype == .orderAdd || etype == .orderCancel) && e.side == wantSide trig.dir &&
    decide (((e.price.toNat : Int) - trig.price.toNat).natAbs ≤ d.bandTicks.toNat)

/-- The event's contribution to the burst of a trigger whose window is open. -/
def burst (d : LatencyArbProxyDetector) (etype : EventType) (ev : SequencedEvent)
    (trig : PendingTrigger) : PendingTrigger :=
  if !trig.burstQualified && d.qualifies etype ev.event trig then
    let trig := { trig with
      burstCount := satAdd32 trig.burstCount 1
      lastBurstSeq := ev.seq
      lastBurstTs := ev.event.ts }
    if d.minBurst ≤ trig.burstCount then { trig with burstQualified := true } else trig
  else trig

/-- The mid has come back far enough; the quotient is cut to `u32`. -/
def reverted (d : LatencyArbProxyDetector) (trig : PendingTrigger) : Bool :=
  match d.toMiniBook.midprice with
  | none => false
  | some midNow =>
    let signedBack : Int := match trig.dir with
      | .buy => trig.midAtTrade.toNat - midNow.toNat
      | .sell => midNow.toNat - trig.midAtTrade.toNat
    decide (0 < signedBack) &&
      decide (d.reversionBps ≤
        UInt32.ofNat (signedBack.toNat * 10000 / max trig.midAtTrade.toNat 1))

def buildFlag (d : LatencyArbProxyDetector) (trig : PendingTrigger) (endSeq endTs : UInt64) :
    ChaosEvent :=
  let reactionEvents := satSub64 endSeq trig.seq
  let reactionNs := satSub64 endTs trig.ts
  let speedScore : Float :=
    if 0 < d.reactionSeq then
      1.0 - clampF64 (reactionEvents.toFloat / d.reactionSeq.toFloat) 0.0 1.0
    else 0.0
  let burstScore := clampF64 (trig.burstCount.toFloat / (d.minBurst.toFloat * 4.0)) 0.0 1.0
  { kind := .latencyArbitrage
    startSeq := trig.seq
    endSeq := endSeq
    startTsNs := trig.ts
    endTsNs := endTs
    severity := clampF64 (0.6 * speedScore + 0.4 * burstScore) 0.0 1.0
    initiator := none
    features :=
      { eventCount := trig.burstCount.toUInt64
        durationNs := reactionNs
        cancelTradeRatio := 0.0
        priceDisplacement := 0
        depthRemoved := trig.qty } }

/-- What the walk over the pending triggers builds up. -/
structure Walk where
  keep : List PendingTrigger
  flag : Option ChaosEvent
  refractoryUntil : UInt64

/-- The fate of one trigger: dropped, kept, or turned into the flag of this call. -/
def visit (d : LatencyArbProxyDetector) (etype : EventType) (ev : SequencedEvent) (w : Walk)
    (trig : PendingTrigger) : Walk :=
  if d.insideWindow ev trig then
    let trig := d.burst etype ev trig
    let flagged : Walk := { w with
      flag := some (d.buildFlag trig ev.seq ev.event.ts)
      refractoryUntil := satAdd64 ev.seq d.cooldownSeq }
    if trig.burstQualified then
      if d.requireReversion then
        if satSub64 ev.seq trig.lastBurstSeq ≤ d.reactionSeq then
          if d.reverted trig && w.flag.isNone then flagged else { w with keep := w.keep ++ [trig] }
        else w
      else if w.flag.isNone then flagged
      else w
    else { w with keep := w.keep ++ [trig] }
  else w

def react (d : LatencyArbProxyDetector) (etype : EventType) (ev : SequencedEvent) :
    LatencyArbProxyDetector × Option ChaosEvent :=
  let w := d.pending.foldl (d.visit etype ev) ⟨[], none, d.refractoryUntil⟩
  ({ d with pending := w.keep, refractoryUntil := w.refractoryUntil }, w.flag)

def process (d : LatencyArbProxyDetector) (ev : SequencedEvent) :
    LatencyArbProxyDetector × Option ChaosEvent :=
  match EventType.fromU8 ev.event.eventType with
  | none => (d, none)
  | some .bookSnapshot => (d, none)
  | some etype =>
    let midBefore := d.toMiniBook.midprice
    let r := d.mutate etype ev.event
    (r.1.seed ev r.2 midBefore).react etype ev

def run (d : LatencyArbProxyDetector) (evs : List SequencedEvent) : LatencyArbProxyDetector :=
  evs.foldl (fun d ev => (d.process ev).1) d

theorem seed_book (d : LatencyArbProxyDetector) (ev : SequencedEvent) (t : Option ResolvedTrade)
    (m : Option UInt64) : (d.seed ev t m).toMiniBook = d.toMiniBook := by
  simp only [seed]
  split_ifs
  · rfl
  · split
    · split_ifs <;> rfl
    · rfl

/-- Triggers come and go beside the book. -/
theorem process_book (d : LatencyArbProxyDetector) (ev : SequencedEvent) :
    (d.process ev).1.toMiniBook = d.toMiniBook.apply ev.event := by
  simp only [process, MiniBook.apply]
  cases ht : EventType.fromU8 ev.event.eventType with
  | none => rfl
  | some t =>
    cases t with
    | orderAdd => exact seed_book _ ev _ _
    | orderCancel => exact seed_book _ ev _ _
    | orderModify => exact seed_book _ ev _ _
    | trade => exact seed_book _ ev _ _
    | bookSnapshot => rfl

end LatencyArbProxyDetector

end Flowlab.Chaos
