import Flowlab.Chaos.Pen

namespace Flowlab.Chaos

open Framework Rounding Writer
open Flowlab.Core (Event EventType Side SequencedEvent satSub64 satSub32)

/-- `u32::saturating_mul`. -/
def satMul32 (a b : UInt32) : UInt32 := UInt32.ofNat (min (a.toNat * b.toNat) (2 ^ 32 - 1))

def sideOf (isBid : Bool) : Side := if isBid then .bid else .ask

/-- A price `off` ticks behind `base` on its side. -/
def behind (side : Side) (base off : UInt64) : UInt64 :=
  match side with
  | .bid => satSub64 base off
  | .ask => satAdd64 base off

/-- An add and the cancel of all of it, `gap / 2` after each. -/
def addCancel (side : Side) (price qty gap : UInt64) : Write Unit := do
  let oid ← Write.takeOid
  Write.push .orderAdd side price qty oid
  Write.wait (gap / 2)
  Write.push .orderCancel side price qty oid
  Write.wait (gap / 2)

structure PhantomLiquidityGenerator where
  rng : DetRng
  basePrice : UInt64
  bandTicks : UInt64
  nextOid : UInt64
  cyclesPerStep : UInt32
  stepPeriodNs : UInt64
  nextDue : UInt64
  cyclesRemaining : UInt32
  addCancelGapNs : UInt64
  deriving DecidableEq

namespace PhantomLiquidityGenerator

def new (seed : UInt64) (severity : Fp) (basePrice : UInt64) (totalCycles : UInt32) :
    PhantomLiquidityGenerator where
  rng := .new (seed ^^^ 0xA1A1A1A1A1A1A1A1)
  basePrice := basePrice
  bandTicks := 32
  nextOid := 1000000
  cyclesPerStep := (lerp severity (.fin 1) (.fin 8)).round.toU32
  stepPeriodNs := (lerp severity (.fin 50000000) (.fin 5000000)).toU64
  nextDue := 0
  cyclesRemaining := totalCycles
  addCancelGapNs := (lerp severity (.fin 2000000) (.fin 50000)).toU64

def cycle (g : PhantomLiquidityGenerator) : Write Unit := do
  let isBid ← Write.boolP (.fin (1 / 2))
  let off ← Write.nextBelow g.bandTicks
  let qty ← Write.nextBelow 800
  addCancel (sideOf isBid) (behind (sideOf isBid) g.basePrice (2 + off)) (200 + qty) g.addCancelGapNs

def step (g : PhantomLiquidityGenerator) (nowNs baseSeq : UInt64) :
    List SequencedEvent × PhantomLiquidityGenerator :=
  let cycles := min g.cyclesPerStep g.cyclesRemaining
  let p := ((List.range cycles.toNat).forM (fun _ => g.cycle) ⟨g.rng, g.nextOid, baseSeq, nowNs, []⟩).2
  (p.out, { g with
    rng := p.rng
    nextOid := p.nextOid
    cyclesRemaining := satSub32 g.cyclesRemaining cycles
    nextDue := satAdd64 nowNs g.stepPeriodNs })

def finished (g : PhantomLiquidityGenerator) : Bool := g.cyclesRemaining = 0

end PhantomLiquidityGenerator

structure QuoteStuffGenerator where
  rng : DetRng
  basePrice : UInt64
  nextOid : UInt64
  burstsRemaining : UInt32
  tradesPerStep : UInt32
  cancelsPerTrade : UInt32
  stepPeriodNs : UInt64
  nextDue : UInt64
  deriving DecidableEq

namespace QuoteStuffGenerator

def new (seed : UInt64) (severity : Fp) (basePrice : UInt64) (bursts : UInt32) :
    QuoteStuffGenerator where
  rng := .new (seed ^^^ 0xB1B1B1B1B1B1B1B1)
  basePrice := basePrice
  nextOid := 1500000
  burstsRemaining := bursts
  tradesPerStep := (lerp severity (.fin 4) (.fin 6)).round.toU32
  cancelsPerTrade := (lerp severity (.fin 8) (.fin 16)).round.toU32
  stepPeriodNs := (lerp severity (.fin 20000000) (.fin 5000000)).toU64
  nextDue := 0

def cancel (g : QuoteStuffGenerator) (dt : UInt64) (side : Side) : Write Unit := do
  let off ← Write.nextBelow 4
  let oid ← Write.takeOid
  Write.push .orderCancel side (behind side g.basePrice (1 + off)) 100 oid
  Write.wait dt

def trade (g : QuoteStuffGenerator) (dt : UInt64) (i : ℕ) : Write Unit := do
  let oid ← Write.takeOid
  Write.push .trade (sideOf (i % 2 ≠ 0)) (behind (sideOf (i % 2 ≠ 0)) g.basePrice 1) 100 oid
  Write.wait dt
  (List.range g.cancelsPerTrade.toNat).forM (fun _ => g.cancel dt (sideOf (i % 2 = 0)))

def step (g : QuoteStuffGenerator) (nowNs baseSeq : UInt64) :
    List SequencedEvent × QuoteStuffGenerator :=
  let total := satMul32 g.tradesPerStep (g.cancelsPerTrade + 1)
  let dt := g.stepPeriodNs / (max total 1).toUInt64
  let p := ((List.range g.tradesPerStep.toNat).forM (g.trade dt)
    ⟨g.rng, g.nextOid, baseSeq, nowNs, []⟩).2
  (p.out, { g with
    rng := p.rng
    nextOid := p.nextOid
    burstsRemaining := satSub32 g.burstsRemaining 1
    nextDue := satAdd64 nowNs g.stepPeriodNs })

def finished (g : QuoteStuffGenerator) : Bool := g.burstsRemaining = 0

end QuoteStuffGenerator

structure SpoofGenerator where
  rng : DetRng
  basePrice : UInt64
  nextOid : UInt64
  cyclesPerStep : UInt32
  stepPeriodNs : UInt64
  nextDue : UInt64
  cyclesRemaining : UInt32
  addCancelGapNs : UInt64
  qty : UInt64
  deriving DecidableEq

namespace SpoofGenerator

def new (seed : UInt64) (severity : Fp) (basePrice : UInt64) (totalCycles : UInt32) :
    SpoofGenerator where
  rng := .new (seed ^^^ 0xD1D1D1D1D1D1D1D1)
  basePrice := basePrice
  nextOid := 1750000
  cyclesPerStep := (lerp severity (.fin 1) (.fin 6)).round.toU32
  stepPeriodNs := (lerp severity (.fin 25000000) (.fin 5000000)).toU64
  nextDue := 0
  cyclesRemaining := totalCycles
  addCancelGapNs := (lerp severity (.fin 1000000) (.fin 50000)).toU64
  qty := (lerp severity (.fin 2000) (.fin 20000)).toU64

def cycle (g : SpoofGenerator) : Write Unit := do
  let isBid ← Write.boolP (.fin (1 / 2))
  let off ← Write.nextBelow 4
  addCancel (sideOf isBid) (behind (sideOf isBid) g.basePrice (1 + off)) g.qty g.addCancelGapNs

def step (g : SpoofGenerator) (nowNs baseSeq : UInt64) : List SequencedEvent × SpoofGenerator :=
  let cycles := min g.cyclesPerStep g.cyclesRemaining
  let p := ((List.range cycles.toNat).forM (fun _ => g.cycle) ⟨g.rng, g.nextOid, baseSeq, nowNs, []⟩).2
  (p.out, { g with
    rng := p.rng
    nextOid := p.nextOid
    cyclesRemaining := satSub32 g.cyclesRemaining cycles
    nextDue := satAdd64 nowNs g.stepPeriodNs })

def finished (g : SpoofGenerator) : Bool := g.cyclesRemaining = 0

end SpoofGenerator

structure CancellationStormGenerator where
  rng : DetRng
  basePrice : UInt64
  nextOid : UInt64
  batch : UInt32
  stepPeriodNs : UInt64
  currentCancelP : Fp
  stormCancelP : Fp
  warmupCancelP : Fp
  warmupBatchesRemaining : UInt32
  stormBatchesRemaining : UInt32
  nextDue : UInt64
  stormStarted : Bool
  deriving DecidableEq

namespace CancellationStormGenerator

def new (seed : UInt64) (severity : Fp) (basePrice : UInt64) : CancellationStormGenerator where
  rng := .new (seed ^^^ 0xC1C1C1C1C1C1C1C1)
  basePrice := basePrice
  nextOid := 2000000
  batch := 128
  stepPeriodNs := 1000000
  currentCancelP := .ofRat (30 / 100)
  warmupCancelP := .ofRat (30 / 100)
  stormCancelP := lerp severity (.ofRat (92 / 100)) (.ofRat (99 / 100))
  warmupBatchesRemaining := 16
  stormBatchesRemaining := (lerp severity (.fin 40) (.fin 120)).round.toU32
  nextDue := 0
  stormStarted := false

/-- The kind of an event by its draw `r`: five in a hundred are trades, the rest cancels in the
current ratio. -/
def eventType (g : CancellationStormGenerator) (r : Fp) : EventType :=
  let five := Fp.ofRat (5 / 100)
  if r.lt five then .trade
  else if r.lt (five.add (((Fp.fin 1).sub five).mul g.currentCancelP)) then .orderCancel
  else .orderAdd

def event (g : CancellationStormGenerator) (dt : UInt64) : Write Unit := do
  let isBid ← Write.boolP (.fin (1 / 2))
  let draw ← Write.nextU64
  let off ← Write.nextBelow 8
  let qty ← Write.nextBelow 400
  let oid ← Write.takeOid
  Write.push (g.eventType ((Fp.ofU64 draw).div (.ofU64 0xFFFFFFFFFFFFFFFF))) (sideOf isBid)
    (behind (sideOf isBid) g.basePrice (off + 1)) (100 + qty) oid
  Write.wait dt

/-- The phase of the next batch, and whether the storm starts with it. -/
def phase (g : CancellationStormGenerator) : CancellationStormGenerator × Bool :=
  if 0 < g.warmupBatchesRemaining then
    ({ g with
      currentCancelP := g.warmupCancelP
      warmupBatchesRemaining := g.warmupBatchesRemaining - 1 }, false)
  else if 0 < g.stormBatchesRemaining then
    ({ g with
      currentCancelP := g.stormCancelP
      stormBatchesRemaining := g.stormBatchesRemaining - 1
      stormStarted := true }, !g.stormStarted)
  else (g, false)

def step (g : CancellationStormGenerator) (nowNs baseSeq : UInt64) :
    List SequencedEvent × CancellationStormGenerator :=
  let (g, justStartingStorm) := g.phase
  let seq := if justStartingStorm then satAdd64 baseSeq 4096 else baseSeq
  let dt := g.stepPeriodNs / (max g.batch 1).toUInt64
  let p := ((List.range g.batch.toNat).forM (fun _ => g.event dt)
    ⟨g.rng, g.nextOid, seq, nowNs, []⟩).2
  (p.out, { g with
    rng := p.rng
    nextOid := p.nextOid
    nextDue := satAdd64 nowNs g.stepPeriodNs })

def finished (g : CancellationStormGenerator) : Bool :=
  g.warmupBatchesRemaining = 0 ∧ g.stormBatchesRemaining = 0

end CancellationStormGenerator

structure MomentumIgnitionGenerator where
  rng : DetRng
  nextOid : UInt64
  /-- 1 for a drift up and -1 for one down. -/
  direction : Int
  curBestBid : UInt64
  curBestAsk : UInt64
  initialMid : UInt64
  targetBps : UInt32
  cyclesPerStep : UInt32
  stepPeriodNs : UInt64
  nextDue : UInt64
  cyclesRemaining : UInt32
  seeded : Bool
  deriving DecidableEq

namespace MomentumIgnitionGenerator

def new (seed : UInt64) (severity : Fp) (basePrice : UInt64) (directionUp : Bool) :
    MomentumIgnitionGenerator :=
  let targetBps := (lerp severity (.fin 8) (.fin 40)).round.toU32
  { rng := .new (seed ^^^ 0xE2E2E2E2E2E2E2E2)
    nextOid := 3000000
    direction := if directionUp then 1 else -1
    curBestBid := satSub64 basePrice 1
    curBestAsk := satAdd64 basePrice 1
    initialMid := basePrice
    targetBps := targetBps
    cyclesPerStep := (lerp severity (.fin 1) (.fin 6)).round.toU32
    stepPeriodNs := (lerp severity (.fin 5000000) (.fin 1000000)).toU64
    nextDue := 0
    cyclesRemaining := max (targetBps * 4) 40
    seeded := false }

/-- One touch on each side. -/
def seed (g : MomentumIgnitionGenerator) : Write MomentumIgnitionGenerator := do
  let oidB ← Write.takeOid
  let oidA ← Write.takeOid
  Write.push .orderAdd .bid g.curBestBid 500 oidB
  Write.push .orderAdd .ask g.curBestAsk 500 oidA
  pure { g with seeded := true }

/-- The drift so far, in basis points of the initial mid. -/
def bpsNow (g : MomentumIgnitionGenerator) : UInt32 :=
  let curMid := (g.curBestBid + g.curBestAsk) / 2
  let moved := if 0 < g.direction then satSub64 curMid g.initialMid else satSub64 g.initialMid curMid
  UInt32.ofNat (moved.toNat * 10000 / (max g.initialMid 1).toNat)

/-- Walk up: a higher ask first, a trade through the old touch, then a higher bid. -/
def cycleUp (g : MomentumIgnitionGenerator) (jumpTicks : UInt64) : Write MomentumIgnitionGenerator := do
  let newAsk := satAdd64 g.curBestAsk jumpTicks
  let newBid := satAdd64 g.curBestBid jumpTicks
  let oid ← Write.takeOid
  Write.push .orderAdd .ask newAsk 500 oid
  Write.wait 20000
  let oid ← Write.takeOid
  Write.push .trade .ask g.curBestAsk 500 oid
  Write.wait 20000
  let oid ← Write.takeOid
  Write.push .orderAdd .bid newBid 500 oid
  pure { g with curBestAsk := newAsk, curBestBid := newBid }

def cycleDown (g : MomentumIgnitionGenerator) (jumpTicks : UInt64) :
    Write MomentumIgnitionGenerator := do
  let newBid := satSub64 g.curBestBid jumpTicks
  let newAsk := satSub64 g.curBestAsk jumpTicks
  let oid ← Write.takeOid
  Write.push .orderAdd .bid newBid 500 oid
  Write.wait 20000
  let oid ← Write.takeOid
  Write.push .trade .bid g.curBestBid 500 oid
  Write.wait 20000
  let oid ← Write.takeOid
  Write.push .orderAdd .ask newAsk 500 oid
  pure { g with curBestBid := newBid, curBestAsk := newAsk }

def cycle (g : MomentumIgnitionGenerator) (jumpTicks : UInt64) : Write MomentumIgnitionGenerator :=
  if 0 < g.direction then g.cycleUp jumpTicks else g.cycleDown jumpTicks

/-- The loop over the cycles of a step, left early once the target is reached. -/
def walk (jumpTicks : UInt64) : ℕ → MomentumIgnitionGenerator → Write MomentumIgnitionGenerator
  | 0, g => pure g
  | n + 1, g =>
    if g.targetBps ≤ g.bpsNow then pure { g with cyclesRemaining := 0 }
    else do
      let g ← g.cycle jumpTicks
      Write.wait 50000
      walk jumpTicks n { g with cyclesRemaining := satSub32 g.cyclesRemaining 1 }

def jumpTicks (g : MomentumIgnitionGenerator) : UInt64 := max (g.initialMid / 10000) 1

def seedOnce (g : MomentumIgnitionGenerator) : Write MomentumIgnitionGenerator :=
  if g.seeded then pure g else g.seed

def body (g : MomentumIgnitionGenerator) : Write MomentumIgnitionGenerator := do
  let g ← g.seedOnce
  walk g.jumpTicks (min g.cyclesPerStep g.cyclesRemaining).toNat g

def step (g : MomentumIgnitionGenerator) (nowNs baseSeq : UInt64) :
    List SequencedEvent × MomentumIgnitionGenerator :=
  let r := g.body ⟨g.rng, g.nextOid, baseSeq, nowNs, []⟩
  (r.2.out, { r.1 with
    rng := r.2.rng
    nextOid := r.2.nextOid
    nextDue := satAdd64 nowNs g.stepPeriodNs })

def finished (g : MomentumIgnitionGenerator) : Bool := g.cyclesRemaining = 0

end MomentumIgnitionGenerator

/-- A resting order a generator means to cancel: `(side, price, qty, oid)`. -/
structure Resting where
  side : UInt8
  price : UInt64
  qty : UInt64
  oid : UInt64
  deriving DecidableEq

/-- `Vec::swap_remove`: the last element takes the place of the removed one. -/
def swapRemove {α : Type} (l : List α) (i : ℕ) : List α :=
  match l.getLast? with
  | none => l
  | some x => (l.set i x).dropLast

structure FlashCrashGenerator where
  rng : DetRng
  basePrice : UInt64
  crashDown : Bool
  targetJumpBps : UInt32
  targetVacuumPct : Fp
  burstsRemaining : UInt32
  stepPeriodNs : UInt64
  nextDue : UInt64
  nextOid : UInt64
  seeded : Bool
  resting : List Resting
  deriving DecidableEq

namespace FlashCrashGenerator

def new (seed : UInt64) (severity : Fp) (basePrice : UInt64) (crashDown : Bool) (bursts : UInt32) :
    FlashCrashGenerator where
  rng := .new (seed ^^^ 0xF3F3F3F3F3F3F3F3)
  basePrice := basePrice
  crashDown := crashDown
  targetJumpBps := (lerp severity (.fin 12) (.fin 80)).round.toU32
  targetVacuumPct := lerp severity (.ofRat (65 / 100)) (.ofRat (95 / 100))
  burstsRemaining := bursts
  stepPeriodNs := (lerp severity (.fin 200000000) (.fin 80000000)).toU64
  nextDue := 0
  nextOid := 4000000
  seeded := false
  resting := []

/-- One heavy level per side and a far one behind it; only the heavy ones are remembered. -/
def seedDepth (g : FlashCrashGenerator) : Write FlashCrashGenerator := do
  let oidB ← Write.takeOid
  Write.push .orderAdd .bid (satSub64 g.basePrice 1) 5000 oidB
  let oidA ← Write.takeOid
  Write.push .orderAdd .ask (satAdd64 g.basePrice 1) 3000 oidA
  let oid ← Write.takeOid
  Write.push .orderAdd .bid (satSub64 g.basePrice 200) 200 oid
  let oid ← Write.takeOid
  Write.push .orderAdd .ask (satAdd64 g.basePrice 200) 200 oid
  pure { g with
    seeded := true
    resting := g.resting ++
      [⟨0, satSub64 g.basePrice 1, 5000, oidB⟩, ⟨1, satAdd64 g.basePrice 1, 3000, oidA⟩] }

/-- Cancel the top bid in full: what it took away, and what rests still. -/
def cancelBid (resting : List Resting) : Write (UInt64 × List Resting) :=
  match resting.find? (·.side = 0) with
  | none => pure (0, resting)
  | some r => do
    Write.push .orderCancel .bid r.price r.qty r.oid
    Write.wait 20000
    pure (satAdd64 0 r.qty, swapRemove resting (resting.findIdx (·.side = 0)))

/-- Cut into the top ask as far as the drop is short of the wanted one; 100 are left. -/
def cutAsk (wantDrop cancelled : UInt64) (resting : List Resting) : Write (List Resting) :=
  if cancelled < wantDrop then
    match resting.find? (·.side = 1) with
    | none => pure resting
    | some r =>
      let cut := min (wantDrop - cancelled) (satSub64 r.qty 100)
      if 0 < cut then do
        Write.push .orderCancel .ask r.price cut r.oid
        Write.wait 20000
        pure (resting.set (resting.findIdx (·.side = 1)) ⟨1, r.price, r.qty - cut, r.oid⟩)
      else pure resting
  else pure resting

def trade (g : FlashCrashGenerator) : Write Unit := do
  let oid ← Write.takeOid
  Write.push .trade (sideOf g.crashDown) (behind (sideOf g.crashDown) g.basePrice 200) 50 oid
  Write.wait 20000

def wantDrop (g : FlashCrashGenerator) : UInt64 :=
  let bandTotal := g.resting.foldl (fun total r => total + r.qty) 0
  ((Fp.ofU64 bandTotal).mul g.targetVacuumPct).toU64

def oneBurst (g : FlashCrashGenerator) : Write FlashCrashGenerator := do
  let r ← cancelBid g.resting
  let resting ← cutAsk g.wantDrop r.1 r.2
  (List.range 4).forM (fun _ => g.trade)
  pure { g with resting := resting }

def seedOnce (g : FlashCrashGenerator) : Write FlashCrashGenerator :=
  if g.seeded then pure g else g.seedDepth

/-- The burst, 1000 ns after the seeding. -/
def burstOnce (g : FlashCrashGenerator) (nowNs : UInt64) : Write FlashCrashGenerator :=
  if 0 < g.burstsRemaining then do
    Write.setTs (satAdd64 nowNs 1000)
    let g ← g.oneBurst
    pure { g with burstsRemaining := g.burstsRemaining - 1 }
  else pure g

/-- The depth is seeded again between bursts. -/
def reseed (g : FlashCrashGenerator) : FlashCrashGenerator :=
  if 0 < g.burstsRemaining then { g with resting := [], seeded := false } else g

def body (g : FlashCrashGenerator) (nowNs : UInt64) : Write FlashCrashGenerator := do
  let g ← g.seedOnce
  let g ← g.burstOnce nowNs
  pure g.reseed

def step (g : FlashCrashGenerator) (nowNs baseSeq : UInt64) :
    List SequencedEvent × FlashCrashGenerator :=
  let r := g.body nowNs ⟨g.rng, g.nextOid, baseSeq, nowNs, []⟩
  (r.2.out, { r.1 with
    rng := r.2.rng
    nextOid := r.2.nextOid
    nextDue := satAdd64 nowNs g.stepPeriodNs })

def finished (g : FlashCrashGenerator) : Bool := g.burstsRemaining = 0

end FlashCrashGenerator

structure LatencyArbProxyGenerator where
  rng : DetRng
  basePrice : UInt64
  nextOid : UInt64
  burstsRemaining : UInt32
  burstSize : UInt32
  stepPeriodNs : UInt64
  nextDue : UInt64
  seeded : Bool
  deriving DecidableEq

namespace LatencyArbProxyGenerator

def new (seed : UInt64) (severity : Fp) (basePrice : UInt64) (bursts : UInt32) :
    LatencyArbProxyGenerator where
  rng := .new (seed ^^^ 0xB4B4B4B4B4B4B4B4)
  basePrice := basePrice
  nextOid := 5000000
  burstsRemaining := bursts
  burstSize := (lerp severity (.fin 4) (.fin 16)).round.toU32
  stepPeriodNs := (lerp severity (.fin 50000000) (.fin 10000000)).toU64
  nextDue := 0
  seeded := false

def seedLevel (g : LatencyArbProxyGenerator) (i : ℕ) : Write Unit := do
  let oidB ← Write.takeOid
  let oidA ← Write.takeOid
  Write.push .orderAdd .bid (satSub64 g.basePrice (UInt64.ofNat i + 1)) 500 oidB
  Write.push .orderAdd .ask (satAdd64 g.basePrice (UInt64.ofNat i + 1)) 500 oidA

def seed (g : LatencyArbProxyGenerator) : Write LatencyArbProxyGenerator := do
  (List.range 10).forM g.seedLevel
  pure { g with seeded := true }

/-- One event of the burst against the print: adds and cancels in turn. -/
def react (side : Side) (printPrice : UInt64) (k : ℕ) : Write Unit := do
  let oid ← Write.takeOid
  Write.push (if k % 2 = 0 then .orderAdd else .orderCancel) side
    (behind side printPrice (UInt64.ofNat (k % 4) + 1)) 200 oid
  Write.wait 50000

def burst (g : LatencyArbProxyGenerator) : Write Unit := do
  let buyPrint ← Write.boolP (.fin (1 / 2))
  let oid ← Write.takeOid
  Write.push .trade (sideOf !buyPrint) (behind (sideOf !buyPrint) g.basePrice 1) 400 oid
  Write.wait 100000
  (List.range g.burstSize.toNat).forM
    (react (sideOf buyPrint) (behind (sideOf !buyPrint) g.basePrice 1))

def seedOnce (g : LatencyArbProxyGenerator) : Write LatencyArbProxyGenerator :=
  if g.seeded then pure g else g.seed

/-- Without bursts left the step ends after the seeding and is not rescheduled. -/
def burstOnce (g : LatencyArbProxyGenerator) (nowNs : UInt64) : Write LatencyArbProxyGenerator :=
  if g.burstsRemaining = 0 then pure g
  else do
    g.burst
    pure { g with
      burstsRemaining := g.burstsRemaining - 1
      nextDue := satAdd64 nowNs g.stepPeriodNs }

def body (g : LatencyArbProxyGenerator) (nowNs : UInt64) : Write LatencyArbProxyGenerator := do
  let g ← g.seedOnce
  g.burstOnce nowNs

def step (g : LatencyArbProxyGenerator) (nowNs baseSeq : UInt64) :
    List SequencedEvent × LatencyArbProxyGenerator :=
  let r := g.body nowNs ⟨g.rng, g.nextOid, baseSeq, nowNs, []⟩
  (r.2.out, { r.1 with rng := r.2.rng, nextOid := r.2.nextOid })

def finished (g : LatencyArbProxyGenerator) : Bool := g.burstsRemaining = 0

end LatencyArbProxyGenerator

/-- `Box<dyn StormGenerator>`: a generator of one of the seven kinds. -/
inductive Generator where
  | phantomLiquidity (g : PhantomLiquidityGenerator)
  | quoteStuff (g : QuoteStuffGenerator)
  | spoof (g : SpoofGenerator)
  | cancellationStorm (g : CancellationStormGenerator)
  | momentumIgnition (g : MomentumIgnitionGenerator)
  | flashCrash (g : FlashCrashGenerator)
  | latencyArbProxy (g : LatencyArbProxyGenerator)
  deriving DecidableEq

namespace Generator

def step (g : Generator) (nowNs baseSeq : UInt64) : List SequencedEvent × Generator :=
  match g with
  | phantomLiquidity g => let r := g.step nowNs baseSeq; (r.1, phantomLiquidity r.2)
  | quoteStuff g => let r := g.step nowNs baseSeq; (r.1, quoteStuff r.2)
  | spoof g => let r := g.step nowNs baseSeq; (r.1, spoof r.2)
  | cancellationStorm g => let r := g.step nowNs baseSeq; (r.1, cancellationStorm r.2)
  | momentumIgnition g => let r := g.step nowNs baseSeq; (r.1, momentumIgnition r.2)
  | flashCrash g => let r := g.step nowNs baseSeq; (r.1, flashCrash r.2)
  | latencyArbProxy g => let r := g.step nowNs baseSeq; (r.1, latencyArbProxy r.2)

def nextDueNs : Generator → UInt64
  | phantomLiquidity g => g.nextDue
  | quoteStuff g => g.nextDue
  | spoof g => g.nextDue
  | cancellationStorm g => g.nextDue
  | momentumIgnition g => g.nextDue
  | flashCrash g => g.nextDue
  | latencyArbProxy g => g.nextDue

def finished : Generator → Bool
  | phantomLiquidity g => g.finished
  | quoteStuff g => g.finished
  | spoof g => g.finished
  | cancellationStorm g => g.finished
  | momentumIgnition g => g.finished
  | flashCrash g => g.finished
  | latencyArbProxy g => g.finished

def nextOid : Generator → UInt64
  | phantomLiquidity g => g.nextOid
  | quoteStuff g => g.nextOid
  | spoof g => g.nextOid
  | cancellationStorm g => g.nextOid
  | momentumIgnition g => g.nextOid
  | flashCrash g => g.nextOid
  | latencyArbProxy g => g.nextOid

end Generator

end Flowlab.Chaos
