import Flowlab.Chaos.FullChain
import Flowlab.Core.DepthSum
import Flowlab.Core.Touch
import Flowlab.Engine.Engine
import Flowlab.Flow.CircuitBreaker

namespace Flowlab

open Flowlab.Chaos (ChaosEvent FullChain)
open Flowlab.Core (Event EventType HotOrderBook Level Xxh3)
open Flowlab.Flow (BreakerConfig BreakerSnapshot CircuitBreaker)

namespace Core.HotOrderBook

def bestBidSize {M : Nat} (b : HotOrderBook M) : UInt64 :=
  if b.bids.count > 0 then (b.bids.cell 0).totalQty else 0

def bestAskSize {M : Nat} (b : HotOrderBook M) : UInt64 :=
  if b.asks.count > 0 then (b.asks.cell 0).totalQty else 0

end Core.HotOrderBook

namespace Engine

structure TradeFrame where
  seq : UInt64
  tsNs : UInt64
  priceTicks : UInt64
  qty : UInt64
  aggressor : Int8
  deriving DecidableEq, Repr

/-- A tick without its ratios, rates and clock readings. -/
structure TickFrame where
  seq : UInt64
  eventTimeNs : UInt64
  midTicks : Int64
  spreadTicks : Int64
  micropriceTicks : Int64
  bidDepth : UInt64
  askDepth : UInt64
  deriving DecidableEq, Repr

structure BookFrame where
  seq : UInt64
  bids : List Level
  asks : List Level
  deriving DecidableEq

/-- The frames of the stream; of a header the instrument, and of the latencies only that they were
sent. -/
inductive TelemetryFrame where
  | header (instrumentId : Option UInt32)
  | chaos (seq : UInt64) (flag : ChaosEvent)
  | trade (t : TradeFrame)
  | tick (t : TickFrame)
  | risk (s : BreakerSnapshot)
  | lat
  | book (b : BookFrame)

/-- How much and how often is published, with periods in nanoseconds. -/
structure PublishConfig where
  depthLevels : Nat
  tickPeriod : Nat
  bookPeriod : Nat

/-- The engine in its loop with what it publishes from; `chain` has all the detectors, of which the
engine itself shows those that keep a book. -/
structure Publisher where
  running : Running
  chain : FullChain
  breaker : CircuitBreaker
  nextTick : Nat
  nextBook : Nat

/-- The price of a print: its own, or else that of the side it executes against. -/
def tradePrice (book : HotOrderBook 256) (ev : Event) : UInt64 :=
  if ev.price > 0 then ev.price
  else if ev.side = 1 then book.bestAsk.getD 0
  else book.bestBid.getD 0

/-- The aggressor by the touch before the event; a locked or crossed touch tells nothing. -/
def aggressor (book : HotOrderBook 256) (price : UInt64) : Int8 :=
  let bb := book.bestBid.getD 0
  let ba := book.bestAsk.getD 0
  if bb > 0 ∧ ba > 0 ∧ bb ≥ ba then 0
  else if ba > 0 ∧ price ≥ ba then 1
  else if bb > 0 ∧ price ≤ bb then -1
  else 0

/-- The print of a trade event, unless its price is unknown. -/
def tradeFrame (seq : UInt64) (book : HotOrderBook 256) (ev : Event) : Option TradeFrame :=
  if Trades ev then
    let price := tradePrice book ev
    if price = 0 then none else some ⟨seq, ev.ts, price, ev.qty, aggressor book price⟩
  else none

/-- `i128` arithmetic, as it wraps. -/
def wrap128 (n : Int) : Int := n.bmod (2 ^ 128)

/-- The size-weighted mid: each side has the weight of the other's size. -/
def microprice (bestBid bestAsk mid : Int64) (bsz asz : UInt64) (twoSided : Bool) : Int64 :=
  let total : Int := wrap128 (bsz.toNat + asz.toNat)
  if twoSided ∧ total > 0 then
    Int64.ofInt ((wrap128 (wrap128 (bestBid.toInt * asz.toNat) +
      wrap128 (bestAsk.toInt * bsz.toNat))).tdiv total)
  else mid

def buildTick (e : Engine) (depthLevels : Nat) (ev : Event) : Option TickFrame := do
  let bestBid := (e.book.bestBid.getD 0).toInt64
  let bestAsk := (e.book.bestAsk.getD 0).toInt64
  let twoSided := decide (bestBid > 0 ∧ bestAsk > 0 ∧ bestAsk > bestBid)
  let mid := if twoSided then (bestBid + bestAsk) / 2 else 0
  let spread := if twoSided then bestAsk - bestBid else 0
  let bidDepth ← e.book.bidDepth depthLevels
  let askDepth ← e.book.askDepth depthLevels
  let micro := microprice bestBid bestAsk mid e.book.bestBidSize e.book.bestAskSize twoSided
  pure ⟨e.seq, ev.ts, mid, spread, micro, bidDepth, askDepth⟩

def buildBook (e : Engine) (depthLevels : Nat) : BookFrame :=
  ⟨e.seq, e.book.bids.ladder.take depthLevels, e.book.asks.ladder.take depthLevels⟩

namespace Publisher

/-- `run` up to its loop, with the first header. -/
def start (cfg : PublishConfig) (chain : FullChain) (breaker : BreakerConfig) (e : Engine)
    (now : Nat) : Publisher × List TelemetryFrame :=
  (⟨.start e now, chain, .new breaker now, now + cfg.tickPeriod, now + cfg.bookPeriod⟩,
    [.header e.tracked])

/-- The frames at tick pace. A tick without a mid is not sent. -/
def tickFrames (cfg : PublishConfig) (p : Publisher) (ev : Event) (now : Nat) :
    Option (Publisher × List TelemetryFrame) :=
  if p.nextTick ≤ now then do
    let tick ← p.running.engine.buildTick cfg.depthLevels ev
    let risk := p.breaker.snapshot now
    pure ({ p with breaker := risk.1, nextTick := now + cfg.tickPeriod },
      (if tick.midTicks > 0 then [.tick tick] else []) ++ [.risk risk.2, .lat])
  else some (p, [])

def bookFrames (cfg : PublishConfig) (p : Publisher) (now : Nat) :
    Publisher × List TelemetryFrame :=
  if p.nextBook ≤ now then
    ({ p with nextBook := now + cfg.bookPeriod },
      [.book (p.running.engine.buildBook cfg.depthLevels)])
  else (p, [])

/-- One turn of the loop with the frames it sends; `none` is a panic. -/
def turn (x : Xxh3) (cfg : PublishConfig) (p : Publisher) (pull : Pull) :
    Option (Publisher × List TelemetryFrame) :=
  let e := p.running.engine.rearm pull.elapsedAt
  let f := e.filter pull.event pull.lockedAt
  let running := (p.running.step x pull).1
  if f.2 then do
    let header :=
      if e.tracked = none then [TelemetryFrame.header (some pull.event.instrumentId)] else []
    let seq := running.engine.seq
    let c ← p.chain.processInto ⟨seq, 0, pull.event, (0, 0)⟩
    let t ← tickFrames cfg { p with running := running, chain := c.1 } pull.event pull.now
    let b := bookFrames cfg t.1 pull.now
    pure (b.1, header ++ (c.2.map (.chaos seq) ++
      ((tradeFrame seq f.1.book pull.event).toList.map .trade ++ (t.2 ++ b.2))))
  else some ({ p with running := running }, [])

/-- The loop over some turns, with all its frames. -/
def run (x : Xxh3) (cfg : PublishConfig) :
    Publisher → List Pull → Option (Publisher × List TelemetryFrame)
  | p, [] => some (p, [])
  | p, pull :: pulls => do
    let t ← p.turn x cfg pull
    let rest ← run x cfg t.1 pulls
    pure (rest.1, t.2 ++ rest.2)

end Publisher

end Engine

end Flowlab
