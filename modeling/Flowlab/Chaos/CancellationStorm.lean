import Flowlab.Framework.SlidingWindow
import Flowlab.Chaos.PhantomLiquidity

namespace Flowlab.Chaos

open Framework
open Flowlab.Core (EventType SequencedEvent satSub64 satSub64_toNat)

/-- The cumulative mean and squared deviation of the quiet samples. -/
structure Welford where
  n : UInt64
  mean : Float
  m2 : Float

namespace Welford

def update (w : Welford) (x : Float) : Welford :=
  let n := satAdd64 w.n 1
  let delta := x - w.mean
  let mean := w.mean + delta / n.toFloat
  { n := n, mean := mean, m2 := w.m2 + delta * (x - mean) }

def stddev (w : Welford) : Float :=
  if w.n < 2 then 0.0 else (w.m2 / (w.n - 1).toFloat).sqrt

end Welford

/-- An event as the rate window keeps it. -/
structure WindowEntry where
  seq : UInt64
  ts : UInt64
  eventType : UInt8
  deriving DecidableEq, Repr

namespace WindowEntry

def of (ev : SequencedEvent) : WindowEntry := ⟨ev.seq, ev.event.ts, ev.event.eventType⟩

def IsCancel (e : WindowEntry) : Prop := e.eventType = EventType.orderCancel.toU8

instance (e : WindowEntry) : Decidable e.IsCancel := inferInstanceAs (Decidable (_ = _))

end WindowEntry

/-- Modifies and snapshots stay out of the rate window. -/
def FeedsRate (etype : EventType) : Prop :=
  etype = .orderAdd ∨ etype = .orderCancel ∨ etype = .trade

instance (etype : EventType) : Decidable (FeedsRate etype) := inferInstanceAs (Decidable (_ ∨ _))

/-- The detector of `cancellation_storm.rs`. `cancelsInWindow` counts entries of a deque in memory, and so
needs no width. -/
structure CancellationStormDetector where
  window : List WindowEntry
  seqWindow : UInt64
  timeWindowNs : UInt64
  minWindow : Nat
  warmupSamples : UInt64
  sigmaFloor : Float
  kSigma : Float
  minConsecutive : UInt64
  cooldownSeq : UInt64
  welford : Welford
  consecutiveAbove : UInt64
  refractoryUntil : UInt64
  burstStartSeq : UInt64
  burstStartTs : UInt64
  lastRate : Float
  cancelsInWindow : Nat

namespace CancellationStormDetector

def new (seqWindow timeWindowNs : UInt64) (minWindow : Nat) (warmupSamples : UInt64)
    (sigmaFloor kSigma : Float) (minConsecutive cooldownSeq : UInt64) :
    CancellationStormDetector where
  window := []
  seqWindow := seqWindow
  timeWindowNs := timeWindowNs
  minWindow := minWindow
  warmupSamples := warmupSamples
  sigmaFloor := sigmaFloor
  kSigma := kSigma
  minConsecutive := minConsecutive
  cooldownSeq := cooldownSeq
  welford := ⟨0, 0.0, 0.0⟩
  consecutiveAbove := 0
  refractoryUntil := 0
  burstStartSeq := 0
  burstStartTs := 0
  lastRate := 0.0
  cancelsInWindow := 0

def threshold (d : CancellationStormDetector) : Float :=
  d.welford.mean + d.kSigma * maxF64 d.welford.stddev d.sigmaFloor

/-- An entry outside one of the enabled windows. -/
def Expired (d : CancellationStormDetector) (curSeq curTs : UInt64) (e : WindowEntry) : Prop :=
  (0 < d.seqWindow ∧ d.seqWindow < satSub64 curSeq e.seq) ∨
    (0 < d.timeWindowNs ∧ d.timeWindowNs < satSub64 curTs e.ts)

instance (d : CancellationStormDetector) (curSeq curTs : UInt64) (e : WindowEntry) :
    Decidable (d.Expired curSeq curTs e) := inferInstanceAs (Decidable (_ ∨ _))

/-- The eviction loop, on the window and the cancels counted in it. -/
def evictLoop (expired : WindowEntry → Bool) : List WindowEntry → Nat → List WindowEntry × Nat
  | [], cancels => ([], cancels)
  | e :: window, cancels =>
    if expired e then evictLoop expired window (if e.IsCancel then cancels - 1 else cancels)
    else (e :: window, cancels)

def evictExpired (d : CancellationStormDetector) (curSeq curTs : UInt64) :
    CancellationStormDetector :=
  let r := evictLoop (fun e => decide (d.Expired curSeq curTs e)) d.window d.cancelsInWindow
  { d with window := r.1, cancelsInWindow := r.2 }

/-- A new event at the back, and what it makes expire gone from the front. -/
def enter (d : CancellationStormDetector) (ev : SequencedEvent) : CancellationStormDetector :=
  let e := WindowEntry.of ev
  let d := { d with
    window := d.window ++ [e]
    cancelsInWindow := if e.IsCancel then d.cancelsInWindow + 1 else d.cancelsInWindow }
  d.evictExpired ev.seq ev.event.ts

/-- `cancels as f64 / total as f64`. -/
def cancelRate (cancels total : Nat) : Float :=
  (UInt64.ofNat cancels).toFloat / (UInt64.ofNat total).toFloat

def emitFlag (d : CancellationStormDetector) (ev : SequencedEvent) (rate : Float) : ChaosEvent :=
  let sigma := maxF64 d.welford.stddev d.sigmaFloor
  let z := maxF64 ((rate - d.welford.mean) / sigma) 0.0
  { kind := .cancellationStorm
    startSeq := d.burstStartSeq
    endSeq := ev.seq
    startTsNs := d.burstStartTs
    endTsNs := ev.event.ts
    severity := clampF64 (z / (z + 3.0)) 0.0 1.0
    initiator := none
    features :=
      { eventCount := UInt64.ofNat d.window.length
        durationNs := satSub64 ev.event.ts d.burstStartTs
        cancelTradeRatio := rate / maxF64 (1.0 - rate) 2.220446049250313e-16
        priceDisplacement := 0
        depthRemoved := 0 } }

/-- A sample above the threshold: it stays out of the baseline, and flags when the run of them is long
enough. -/
def above (d : CancellationStormDetector) (ev : SequencedEvent) (rate : Float) (inRefractory : Bool) :
    CancellationStormDetector × Option ChaosEvent :=
  let d :=
    if d.consecutiveAbove = 0 then { d with burstStartSeq := ev.seq, burstStartTs := ev.event.ts }
    else d
  let d := { d with consecutiveAbove := d.consecutiveAbove + 1 }
  if d.minConsecutive ≤ d.consecutiveAbove ∧ inRefractory = false then
    ({ d with refractoryUntil := satAdd64 ev.seq d.cooldownSeq, consecutiveAbove := 0 },
      some (d.emitFlag ev rate))
  else (d, none)

/-- A sample at or below the threshold feeds the baseline outside the refractory period. -/
def below (d : CancellationStormDetector) (rate : Float) (inRefractory : Bool) :
    CancellationStormDetector :=
  let d := { d with consecutiveAbove := 0 }
  if inRefractory then d else { d with welford := d.welford.update rate }

/-- The rate of the window against the threshold, once there are entries and samples enough. -/
def evaluate (d : CancellationStormDetector) (ev : SequencedEvent) :
    CancellationStormDetector × Option ChaosEvent :=
  if d.window.length < d.minWindow then (d, none)
  else
    let rate := cancelRate d.cancelsInWindow d.window.length
    let d := { d with lastRate := rate }
    let inRefractory := decide (ev.seq < d.refractoryUntil)
    if d.welford.n < d.warmupSamples then ({ d with welford := d.welford.update rate }, none)
    else if d.threshold < rate then d.above ev rate inRefractory
    else (d.below rate inRefractory, none)

def process (d : CancellationStormDetector) (ev : SequencedEvent) :
    CancellationStormDetector × Option ChaosEvent :=
  match EventType.fromU8 ev.event.eventType with
  | none => (d, none)
  | some etype => if FeedsRate etype then (d.enter ev).evaluate ev else (d, none)

def run (d : CancellationStormDetector) (evs : List SequencedEvent) : CancellationStormDetector :=
  evs.foldl (fun d ev => (d.process ev).1) d

end CancellationStormDetector

end Flowlab.Chaos
