import Flowlab.Chaos.OrderTracker

namespace Flowlab.Chaos

open Flowlab.Core (Event EventType SequencedEvent satSub64)

/-- Direction of the current detected drift. -/
inductive Dir where
  | up
  | down
  deriving DecidableEq, Repr

structure MidSample where
  seq : UInt64
  ts : UInt64
  mid : UInt64
  deriving DecidableEq, Repr

/-- The detector of `momentum_ignition.rs`: its own book, the rolling mids (oldest first) and the
state of the current monotone run. -/
structure MomentumIgnitionDetector extends MiniBook where
  mids : List MidSample
  buyPressure : UInt64
  sellPressure : UInt64
  tradesInWindow : UInt64
  seqWindow : UInt64
  timeWindowNs : UInt64
  minMoveBps : UInt32
  minTrades : UInt64
  minConsecutive : UInt32
  cooldownSeq : UInt64
  runDir : Option Dir
  runLen : UInt32
  runStartSeq : UInt64
  runStartTs : UInt64
  runStartMid : UInt64
  refractoryUntil : UInt64

namespace MomentumIgnitionDetector

def new (seqWindow timeWindowNs : UInt64) (maxBookLevels : Nat) (minMoveBps : UInt32)
    (minTrades : UInt64) (minConsecutive : UInt32) (cooldownSeq : UInt64) :
    MomentumIgnitionDetector where
  toMiniBook := .new maxBookLevels
  mids := []
  buyPressure := 0
  sellPressure := 0
  tradesInWindow := 0
  seqWindow := seqWindow
  timeWindowNs := timeWindowNs
  minMoveBps := minMoveBps
  minTrades := minTrades
  minConsecutive := minConsecutive
  cooldownSeq := cooldownSeq
  runDir := none
  runLen := 0
  runStartSeq := 0
  runStartTs := 0
  runStartMid := 0
  refractoryUntil := 0

/-- A trade counts for the window, and for the pressure of its aggressor. -/
def countTrade (d : MomentumIgnitionDetector) (aggressor : AggressorSide) :
    MomentumIgnitionDetector :=
  let d := { d with tradesInWindow := d.tradesInWindow + 1 }
  match aggressor with
  | .buy => { d with buyPressure := d.buyPressure + 1 }
  | .sell => { d with sellPressure := d.sellPressure + 1 }

/-- The event's effect on the book and the counters. -/
def mutate (d : MomentumIgnitionDetector) (etype : EventType) (e : Event) :
    MomentumIgnitionDetector :=
  match etype with
  | .orderAdd => { d with toMiniBook := d.toMiniBook.onAdd e }
  | .orderCancel => { d with toMiniBook := d.toMiniBook.onCancel e }
  | .orderModify => d
  | .trade =>
    let r := d.toMiniBook.onTrade e
    let d := { d with toMiniBook := r.1 }
    match r.2 with
    | some trade => d.countTrade trade.aggressor
    | none => d
  | .bookSnapshot => d

/-- Update the monotone run when a new mid sample lands; the samples already hold it. -/
def updateRun (d : MomentumIgnitionDetector) (mid seq ts : UInt64) : MomentumIgnitionDetector :=
  match d.mids.reverse[1]? with
  | none =>
    { d with runDir := none, runLen := 1, runStartSeq := seq, runStartTs := ts, runStartMid := mid }
  | some prev =>
    if mid = prev.mid then d
    else
      let newDir := if prev.mid < mid then some Dir.up else some Dir.down
      if newDir = d.runDir then { d with runLen := satAdd32 d.runLen 1 }
      else
        { d with
          runDir := newDir
          runLen := 2
          runStartSeq := prev.seq
          runStartTs := prev.ts
          runStartMid := prev.mid }

/-- A sample outside one of the enabled windows. -/
def Expired (d : MomentumIgnitionDetector) (curSeq curTs : UInt64) (s : MidSample) : Prop :=
  (0 < d.seqWindow ∧ d.seqWindow < satSub64 curSeq s.seq) ∨
    (0 < d.timeWindowNs ∧ d.timeWindowNs < satSub64 curTs s.ts)

instance (d : MomentumIgnitionDetector) (curSeq curTs : UInt64) (s : MidSample) :
    Decidable (d.Expired curSeq curTs s) := by
  unfold Expired
  infer_instance

/-- The counters start over when no sample is left. -/
def evictExpired (d : MomentumIgnitionDetector) (curSeq curTs : UInt64) :
    MomentumIgnitionDetector :=
  let d := { d with mids := d.mids.dropWhile (fun s => decide (d.Expired curSeq curTs s)) }
  if d.mids.isEmpty then { d with buyPressure := 0, sellPressure := 0, tradesInWindow := 0 } else d

def severity (d : MomentumIgnitionDetector) (dir : Dir) (moveBps : UInt32) : Float :=
  let totalPressure := d.buyPressure + d.sellPressure
  let imbalance : Float :=
    if totalPressure = 0 then 0.0
    else
      let dom := match dir with
        | .up => d.buyPressure
        | .down => d.sellPressure
      dom.toFloat / totalPressure.toFloat
  let moveScore := clampF64 (moveBps.toFloat / (d.minMoveBps.toFloat * 4.0)) 0.0 1.0
  let imbScore := clampF64 ((imbalance - 0.5) * 2.0) 0.0 1.0
  clampF64 (0.6 * moveScore + 0.4 * imbScore) 0.0 1.0

/-- Pressure must align with the run. -/
def Aligned (d : MomentumIgnitionDetector) : Dir → Prop
  | .up => d.sellPressure < d.buyPressure
  | .down => d.buyPressure < d.sellPressure

instance (d : MomentumIgnitionDetector) (dir : Dir) : Decidable (d.Aligned dir) := by
  cases dir
  · exact inferInstanceAs (Decidable (d.sellPressure < d.buyPressure))
  · exact inferInstanceAs (Decidable (d.buyPressure < d.sellPressure))

/-- The flag for a run that passed every gate, with the refractory period it arms. -/
def fire (d : MomentumIgnitionDetector) (ev : SequencedEvent) (dir : Dir) (midAfter : UInt64)
    (moveBps : UInt32) : MomentumIgnitionDetector × Option ChaosEvent :=
  ({ d with
      refractoryUntil := satAdd64 ev.seq d.cooldownSeq
      runDir := none
      runLen := 0 },
    some
      { kind := .momentumIgnition
        startSeq := d.runStartSeq
        endSeq := ev.seq
        startTsNs := d.runStartTs
        endTsNs := ev.event.ts
        severity := d.severity dir moveBps
        initiator := none
        features :=
          { eventCount := d.tradesInWindow
            durationNs := satSub64 ev.event.ts d.runStartTs
            cancelTradeRatio := 0.0
            priceDisplacement := midAfter.toInt64 - d.runStartMid.toInt64
            depthRemoved := 0 } })

/-- The trigger conditions, in the order they are tried. -/
def evaluate (d : MomentumIgnitionDetector) (ev : SequencedEvent) (midAfter : UInt64) :
    MomentumIgnitionDetector × Option ChaosEvent :=
  match d.runDir with
  | none => (d, none)
  | some dir =>
    if d.runLen < d.minConsecutive then (d, none)
    else if d.tradesInWindow < d.minTrades then (d, none)
    else
      let moveBps := bpsMove d.runStartMid midAfter
      if moveBps < d.minMoveBps then (d, none)
      else if ¬ d.Aligned dir then (d, none)
      else d.fire ev dir midAfter moveBps

/-- The mid after the mutation drives the run; flat ticks leave no sample. -/
def sample (d : MomentumIgnitionDetector) (ev : SequencedEvent) :
    MomentumIgnitionDetector × Option ChaosEvent :=
  match d.toMiniBook.midprice with
  | none => (d, none)
  | some midAfter =>
    let pushSample := decide (d.mids.getLast?.map MidSample.mid ≠ some midAfter)
    let d := if pushSample then { d with mids := d.mids ++ [⟨ev.seq, ev.event.ts, midAfter⟩] } else d
    let d := d.evictExpired ev.seq ev.event.ts
    let inRefractory := decide (ev.seq < d.refractoryUntil)
    let d := if pushSample then d.updateRun midAfter ev.seq ev.event.ts else d
    if inRefractory then (d, none) else d.evaluate ev midAfter

def process (d : MomentumIgnitionDetector) (ev : SequencedEvent) :
    MomentumIgnitionDetector × Option ChaosEvent :=
  match EventType.fromU8 ev.event.eventType with
  | none => (d, none)
  | some .bookSnapshot => (d, none)
  | some etype => (d.mutate etype ev.event).sample ev

def run (d : MomentumIgnitionDetector) (evs : List SequencedEvent) : MomentumIgnitionDetector :=
  evs.foldl (fun d ev => (d.process ev).1) d

theorem countTrade_book (d : MomentumIgnitionDetector) (a : AggressorSide) :
    (d.countTrade a).toMiniBook = d.toMiniBook := by
  cases a <;> rfl

theorem updateRun_book (d : MomentumIgnitionDetector) (mid seq ts : UInt64) :
    (d.updateRun mid seq ts).toMiniBook = d.toMiniBook := by
  simp only [updateRun]
  split
  · rfl
  · split_ifs <;> rfl

theorem evictExpired_book (d : MomentumIgnitionDetector) (curSeq curTs : UInt64) :
    (d.evictExpired curSeq curTs).toMiniBook = d.toMiniBook := by
  simp only [evictExpired]
  split_ifs <;> rfl

theorem evaluate_book (d : MomentumIgnitionDetector) (ev : SequencedEvent) (midAfter : UInt64) :
    (d.evaluate ev midAfter).1.toMiniBook = d.toMiniBook := by
  simp only [evaluate]
  split
  · rfl
  · split_ifs <;> rfl

theorem sample_book (d : MomentumIgnitionDetector) (ev : SequencedEvent) :
    (d.sample ev).1.toMiniBook = d.toMiniBook := by
  simp only [sample]
  split
  · rfl
  · split_ifs
    · rw [updateRun_book, evictExpired_book]
    · rw [evaluate_book, updateRun_book, evictExpired_book]
    · rw [evictExpired_book]
    · rw [evaluate_book, evictExpired_book]

/-- Sampling and flagging leave the book alone. -/
theorem process_book (d : MomentumIgnitionDetector) (ev : SequencedEvent) :
    (d.process ev).1.toMiniBook = d.toMiniBook.apply ev.event := by
  simp only [process, MiniBook.apply]
  cases ht : EventType.fromU8 ev.event.eventType with
  | none => rfl
  | some t =>
    cases t with
    | orderAdd => exact sample_book _ ev
    | orderCancel => exact sample_book _ ev
    | orderModify => exact sample_book _ ev
    | bookSnapshot => rfl
    | trade =>
      rw [sample_book]
      simp only [mutate]
      split
      · rw [countTrade_book]
      · rfl

end MomentumIgnitionDetector

end Flowlab.Chaos
