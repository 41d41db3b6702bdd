import Flowlab.Chaos.CancellationStorm
import Flowlab.Chaos.Spoof

namespace Flowlab.Chaos

open Flowlab.Core (EventType SequencedEvent satSub64)

/-- The detector of `detection.rs` for bursts of cancels without trades. -/
structure QuoteStuffDetector where
  window : List WindowEntry
  windowSize : Nat
  cancelRatioThreshold : Float

namespace QuoteStuffDetector

def new (windowSize : Nat) (cancelRatioThreshold : Float) : QuoteStuffDetector :=
  ⟨[], windowSize, cancelRatioThreshold⟩

/-- The newest entry in, and the oldest out where the window is full. -/
def enter (d : QuoteStuffDetector) (ev : SequencedEvent) : QuoteStuffDetector :=
  { d with
    window := (if d.windowSize ≤ d.window.length then d.window.tail else d.window) ++
      [WindowEntry.of ev] }

/-- Cancels to trades in the window, with at least one trade assumed. -/
def ratio (d : QuoteStuffDetector) : Float :=
  let cancels := d.window.countP fun e => decide (e.eventType = EventType.orderCancel.toU8)
  let trades := d.window.countP fun e => decide (e.eventType = EventType.trade.toU8)
  (UInt64.ofNat cancels).toFloat / (UInt64.ofNat (max trades 1)).toFloat

def buildFlag (d : QuoteStuffDetector) (ev : SequencedEvent) : ChaosEvent :=
  let start := (d.window.head?.map fun e => (e.seq, e.ts)).getD (0, 0)
  { kind := .quoteStuff
    startSeq := start.1
    endSeq := ev.seq
    startTsNs := start.2
    endTsNs := ev.event.ts
    severity := minF64 (d.ratio / d.cancelRatioThreshold / 2.0) 1.0
    initiator := none
    features :=
      { eventCount := UInt64.ofNat d.window.length
        durationNs := satSub64 ev.event.ts start.2
        cancelTradeRatio := d.ratio
        priceDisplacement := 0
        depthRemoved := 0 } }

def process (d : QuoteStuffDetector) (ev : SequencedEvent) :
    QuoteStuffDetector × Option ChaosEvent :=
  match EventType.fromU8 ev.event.eventType with
  | none => (d, none)
  | some etype =>
    if FeedsRate etype then
      let d := d.enter ev
      (d, if d.cancelRatioThreshold ≤ d.ratio ∧ d.windowSize / 2 ≤ d.window.length then
        some (d.buildFlag ev) else none)
    else (d, none)

end QuoteStuffDetector

end Flowlab.Chaos
