import Flowlab.Engine.TelemetryRun
import Flowlab.Framework.Recent

namespace Flowlab.Api

open Framework

structure EngineTick where
  seq : UInt64
  midTicks : Int64
  spreadTicks : Int64
  micropriceTicks : Int64
  spreadBps : Float
  bidDepth : UInt64
  askDepth : UInt64
  imbalance : Float
  vpin : Float
  tradeVelocity : Float
  regime : UInt8
  eventsPerSec : UInt64
  droppedTotal : UInt64

structure EngineStageLat where
  p50Ns : UInt64
  p99Ns : UInt64
  p999Ns : UInt64
  maxNs : UInt64
  deriving DecidableEq, Repr

structure EngineLat where
  parse : EngineStageLat
  apply : EngineStageLat
  analytics : EngineStageLat
  risk : EngineStageLat
  wireOut : EngineStageLat
  deriving DecidableEq, Repr

structure EngineRisk where
  halted : Bool
  reason : Option String
  gapsInWindow : UInt32
  deriving DecidableEq, Repr

structure Level where
  priceTicks : UInt64
  qty : UInt64
  orderCount : UInt32
  deriving DecidableEq, Repr

structure TradePrint where
  tsNs : UInt64
  priceTicks : UInt64
  qty : UInt64
  aggressor : Int8
  deriving DecidableEq, Repr

structure ChaosFlag where
  seq : UInt64
  kind : String
  severity : Float
  startSeq : UInt64
  endSeq : UInt64
  initiator : Option UInt64

/-- One frame as the client decodes it. -/
inductive EngineFrame where
  | header (symbol : Option String) (instrumentId : Option UInt32)
  | tick (et : EngineTick)
  | lat (el : EngineLat)
  | risk (er : EngineRisk)
  | book (bids asks : List Level)
  | trade (tp : TradePrint)
  | chaos (cf : ChaosFlag)

structure StageLat where
  p50Ns : UInt64
  p99Ns : UInt64
  deriving DecidableEq, Repr

structure StageLatencies where
  parse : StageLat
  apply : StageLat
  analytics : StageLat
  risk : StageLat
  wire : StageLat
  deriving DecidableEq, Repr

def StageLatencies.zero : StageLatencies := ⟨⟨0, 0⟩, ⟨0, 0⟩, ⟨0, 0⟩, ⟨0, 0⟩, ⟨0, 0⟩⟩

/-- What the dashboard gets, as far as the client fills it in. -/
structure Tick where
  tsNs : Int64
  seq : UInt64
  midTicks : Int64
  spreadTicks : Int64
  micropriceTicks : Int64
  spreadBps : Float
  bidDepth : UInt64
  askDepth : UInt64
  imbalance : Float
  vpin : Float
  tradeVel : Float
  regime : UInt8
  latP50Ns : UInt64
  latP99Ns : UInt64
  latP999Ns : UInt64
  latMaxNs : UInt64
  latJitterNs : UInt64
  droppedTotal : UInt64
  eventsPerSec : UInt64
  breakerHalted : Bool
  breakerReason : String
  gapsLastMinute : UInt32
  bids : List Level
  asks : List Level
  stages : StageLatencies

structure EngineClient where
  latest : Tick
  book : Option (List Level × List Level)
  lastApplyNs : UInt64
  stages : StageLatencies
  gaps : UInt32
  halted : Bool
  reason : String
  dropped : UInt64
  symbol : String
  instrument : UInt32
  trades : List TradePrint
  chaos : List ChaosFlag

def tradeRingCap : Nat := 128

def chaosRingCap : Nat := 64

/-- The tick before the first frame. -/
def waiting (now : Int64) : Tick where
  tsNs := now
  seq := 0
  midTicks := 0
  spreadTicks := 0
  micropriceTicks := 0
  spreadBps := 0
  bidDepth := 0
  askDepth := 0
  imbalance := 0
  vpin := 0
  tradeVel := 0
  regime := 0
  latP50Ns := 0
  latP99Ns := 0
  latP999Ns := 0
  latMaxNs := 0
  latJitterNs := 0
  droppedTotal := 0
  eventsPerSec := 0
  breakerHalted := false
  breakerReason := "waiting for engine"
  gapsLastMinute := 0
  bids := []
  asks := []
  stages := .zero

def EngineStageLat.short (l : EngineStageLat) : StageLat := ⟨l.p50Ns, l.p99Ns⟩

def EngineLat.stages (el : EngineLat) : StageLatencies where
  parse := el.parse.short
  apply := el.apply.short
  analytics := el.analytics.short
  risk := el.risk.short
  wire := el.wireOut.short

/-- An append to a ring of the last prints or flags. -/
def push {α : Type} (cap : Nat) (ring : List α) (x : α) : List α :=
  (if cap ≤ ring.length then ring.tail else ring) ++ [x]

namespace EngineClient

def new (now : Int64) : EngineClient where
  latest := waiting now
  book := none
  lastApplyNs := 0
  stages := .zero
  gaps := 0
  halted := false
  reason := ""
  dropped := 0
  symbol := ""
  instrument := 0
  trades := []
  chaos := []

/-- The tick that `dispatchJSON` makes of a `Tick` frame. -/
def tickOf (c : EngineClient) (now : Int64) (et : EngineTick) : Tick where
  tsNs := now
  seq := et.seq
  midTicks := et.midTicks
  spreadTicks := et.spreadTicks
  micropriceTicks := et.micropriceTicks
  spreadBps := et.spreadBps
  bidDepth := et.bidDepth
  askDepth := et.askDepth
  imbalance := et.imbalance
  vpin := et.vpin
  tradeVel := et.tradeVelocity
  regime := et.regime
  latP50Ns := c.lastApplyNs
  latP99Ns := c.lastApplyNs
  latP999Ns := 0
  latMaxNs := 0
  latJitterNs := 0
  droppedTotal := et.droppedTotal
  eventsPerSec := et.eventsPerSec
  breakerHalted := c.halted
  breakerReason := c.reason
  gapsLastMinute := c.gaps
  bids := []
  asks := []
  stages := .zero

/-- The latest tick with a `Lat` frame put in. -/
def patch (t : Tick) (el : EngineLat) : Tick :=
  { t with
    latP50Ns := el.apply.p50Ns
    latP99Ns := el.apply.p99Ns
    latP999Ns := el.apply.p999Ns
    latMaxNs := el.apply.maxNs
    latJitterNs :=
      if el.apply.p50Ns < el.apply.p99Ns then el.apply.p99Ns - el.apply.p50Ns else t.latJitterNs
    stages := el.stages }

/-- `dispatchJSON` behind the decoding. -/
def dispatch (c : EngineClient) (now : Int64) : EngineFrame → EngineClient
  | .header symbol instrumentId =>
    { c with
      symbol := symbol.getD c.symbol
      instrument := instrumentId.getD c.instrument }
  | .tick et => { c with dropped := et.droppedTotal, latest := c.tickOf now et }
  | .lat el =>
    { c with
      stages := el.stages
      lastApplyNs := el.apply.p99Ns
      latest := patch c.latest el }
  | .risk er =>
    { c with
      gaps := er.gapsInWindow
      halted := er.halted
      reason := er.reason.getD "" }
  | .book bids asks => { c with book := some (bids, asks) }
  | .trade tp => { c with trades := push tradeRingCap c.trades tp }
  | .chaos cf => { c with chaos := push chaosRingCap c.chaos cf }

def reset (c : EngineClient) : EngineClient := { c with halted := false, reason := "", gaps := 0 }

/-- `Next`. -/
def next (c : EngineClient) (now : Int64) : Tick :=
  let out := { c.latest with tsNs := now }
  let out := match c.book with
    | some (bids, asks) => { out with bids := bids, asks := asks }
    | none => out
  { out with stages := c.stages }

end EngineClient

/-- A frame comes in at a time, or the reset of the HTTP interface. -/
inductive ClientOp where
  | frame (now : Int64) (f : EngineFrame)
  | reset

namespace EngineClient

def apply (c : EngineClient) : ClientOp → EngineClient
  | .frame now f => c.dispatch now f
  | .reset => c.reset

def run (start : Int64) (ops : List ClientOp) : EngineClient := ops.foldl apply (new start)

end EngineClient

end Flowlab.Api
