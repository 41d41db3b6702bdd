import Flowlab.Chaos.QuoteStuff
import Flowlab.Chaos.SnapRing

namespace Flowlab.Chaos

open Flowlab.Core (SequencedEvent)

/-- The chain of `chain.rs` with all its detectors and its counts. -/
structure FullChain where
  quote : QuoteStuffDetector
  spoof : SpoofDetector
  phantom : PhantomLiquidityDetector
  storm : CancellationStormDetector
  ignition : MomentumIgnitionDetector
  crash : FlashCrashDetector
  proxy : LatencyArbProxyDetector
  counts : Vector UInt64 7

/-- `kind_index`: also the place of a detector in the chain. -/
def ChaosKind.index : ChaosKind → Fin 7
  | .quoteStuff => 0
  | .spoof => 1
  | .phantomLiquidity => 2
  | .cancellationStorm => 3
  | .momentumIgnition => 4
  | .flashCrash => 5
  | .latencyArbitrage => 6

namespace FullChain

def new (quote : QuoteStuffDetector) (spoof : SpoofDetector) (phantom : PhantomLiquidityDetector)
    (storm : CancellationStormDetector) (ignition : MomentumIgnitionDetector)
    (crash : FlashCrashDetector) (proxy : LatencyArbProxyDetector) : FullChain :=
  ⟨quote, spoof, phantom, storm, ignition, crash, proxy, .replicate 7 0⟩

def defaultItch (hashOrder : HashOrder) : FullChain :=
  new (.new 48 8.0) (.new 1000 64) (.new 256 5000000 4096 100 hashOrder)
    (.new 2048 0 128 1024 0.05 4.0 8 4096) (.new 1024 0 64 5 8 4 2048) (.new 10 8 64 5 0.6 3 2048)
    (.new 64 0 64 4 200 4 false 0 1024)

def bump (counts : Vector UInt64 7) (e : ChaosEvent) : Vector UInt64 7 :=
  counts.set e.kind.index (satAdd64 counts[e.kind.index] 1)

/-- Every detector sees the event; the flags come out in chain order and are counted. `none` is the
panic of the spoof detector, as it is built with overflow checks; a release build goes on. -/
def processInto (c : FullChain) (ev : SequencedEvent) : Option (FullChain × List ChaosEvent) :=
  let q := c.quote.process ev
  match c.spoof.process ev with
  | none => none
  | some s =>
    let p := c.phantom.process ev
    let t := c.storm.process ev
    let i := c.ignition.process ev
    let r := c.crash.process ev
    let x := c.proxy.process ev
    let flags := q.2.toList ++ (s.2.toList ++ (p.2.toList ++ (t.2.toList ++ (i.2.toList ++
      (r.2.toList ++ x.2.toList)))))
    some (⟨q.1, s.1, p.1, t.1, i.1, r.1, x.1, flags.foldl bump c.counts⟩, flags)

def count (c : FullChain) (kind : ChaosKind) : UInt64 := c.counts[kind.index]

/-- A stream, with the flags of every event. -/
def run : FullChain → List SequencedEvent → Option (FullChain × List (List ChaosEvent))
  | c, [] => some (c, [])
  | c, ev :: evs =>
    match c.processInto ev with
    | none => none
    | some (c, flags) =>
      match run c evs with
      | none => none
      | some (c, rest) => some (c, flags :: rest)

end FullChain

end Flowlab.Chaos
