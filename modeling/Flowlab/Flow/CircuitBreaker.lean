import Mathlib.Tactic
import Flowlab.Framework.FiniteMap

namespace Flowlab.Flow

open Std Framework

inductive HaltReason where
  | rateLimit
  | positionCap
  | dailyLossFloor
  | orderToTradeRatio
  | feedGap
  | manual
  deriving DecidableEq, Repr

inductive Decision where
  | allow
  | block (reason : HaltReason)
  deriving DecidableEq, Repr

inductive OrderSide where
  | buy
  | sell
  deriving DecidableEq, Repr

/-- A prospective order. -/
structure Intent where
  instrumentId : UInt32
  side : OrderSide
  qty : UInt32
  priceTicks : UInt64
  deriving DecidableEq

/-- An execution report. -/
structure Fill where
  instrumentId : UInt32
  side : OrderSide
  qty : UInt32
  priceTicks : UInt64
  deriving DecidableEq

/-- A quantity with the sign of its side, `qty as i64` or its negative. -/
def signedQty (side : OrderSide) (qty : UInt32) : Int64 :=
  match side with
  | .buy => Int64.ofNat qty.toNat
  | .sell => -Int64.ofNat qty.toNat

/-- A guard whose field is `none` is disabled; `gapWindow` is in nanoseconds. -/
structure BreakerConfig where
  maxOrdersPerSec : Option UInt32
  maxPosition : Option Int64
  maxDailyLossTicks : Option Int64
  maxOrderToTradeRatio : Option Float
  otrWarmup : UInt64
  gapThreshold : Option UInt32
  gapWindow : Nat

/-- `Duration::as_secs_f64` of a number of nanoseconds. -/
def asSecs (ns : Nat) : Float :=
  Float.ofNat (ns / 1000000000) + Float.ofNat (ns % 1000000000) / Float.ofNat 1000000000

/-- `f64::min`. -/
def minF64 (a b : Float) : Float := if a ≤ b then a else b

/-- Token bucket, evaluated on each `try_take`; instants are nanoseconds of the monotonic clock. -/
structure TokenBucket where
  tokens : Float
  last : Int
  capacity : Float

def TokenBucket.new (capacity : Float) (now : Int) : TokenBucket := ⟨capacity, now, capacity⟩

def TokenBucket.tryTake (k : TokenBucket) (n ratePerSec : Float) (now : Int) : TokenBucket × Bool :=
  let elapsed := asSecs (now - k.last).toNat
  let tokens := minF64 (k.tokens + elapsed * ratePerSec) k.capacity
  if tokens ≥ n then ({ k with tokens := tokens - n, last := now }, true)
  else ({ k with tokens := tokens, last := now }, false)

structure CircuitBreaker where
  cfg : BreakerConfig
  halted : Bool
  reason : Option HaltReason
  ordersSent : UInt64
  tradesDone : UInt64
  cashFlowTicks : Int64
  positions : ExtTreeMap UInt32 Int64
  rate : TokenBucket
  gapLog : List Int

/-- What `snapshot` reports. -/
structure BreakerSnapshot where
  halted : Bool
  reason : Option HaltReason
  ordersSent : UInt64
  tradesDone : UInt64
  cashFlowTicks : Int64
  netPosition : Int64
  gapsInWindow : UInt32

namespace CircuitBreaker

def new (cfg : BreakerConfig) (now : Int) : CircuitBreaker where
  cfg := cfg
  halted := false
  reason := none
  ordersSent := 0
  tradesDone := 0
  cashFlowTicks := 0
  positions := ∅
  rate := TokenBucket.new (Float.ofNat (cfg.maxOrdersPerSec.getD 0xFFFFFFFF).toNat) now
  gapLog := []

def isHalted (b : CircuitBreaker) : Bool := b.halted

def haltReason (b : CircuitBreaker) : Option HaltReason := b.reason

/-- The position of an instrument, 0 when it never traded. -/
def position (b : CircuitBreaker) (instrumentId : UInt32) : Int64 :=
  (b.positions[instrumentId]?).getD 0

/-- `log.retain` with the cutoff of the gap window. -/
def recentGaps (b : CircuitBreaker) (now : Int) : List Int :=
  b.gapLog.filter (fun t => decide (now - b.cfg.gapWindow ≤ t))

def snapshot (b : CircuitBreaker) (now : Int) : CircuitBreaker × BreakerSnapshot :=
  let log := b.recentGaps now
  ({ b with gapLog := log },
    { halted := b.isHalted
      reason := b.haltReason
      ordersSent := b.ordersSent
      tradesDone := b.tradesDone
      cashFlowTicks := b.cashFlowTicks
      netPosition := (b.positions.toList.map fun p => p.2.abs).foldl (· + ·) 0
      gapsInWindow := UInt32.ofNat log.length })

/-- The first reason wins. -/
def latch (b : CircuitBreaker) (r : HaltReason) : CircuitBreaker × Decision :=
  match b.reason with
  | none => ({ b with reason := some r, halted := true }, .block r)
  | some r' => (b, .block r')

/-- Guard 1: take one token; without a configured rate the bucket is not touched. -/
def takeToken (b : CircuitBreaker) (now : Int) : CircuitBreaker × Bool :=
  match b.cfg.maxOrdersPerSec with
  | none => (b, true)
  | some rps =>
    let r := b.rate.tryTake 1.0 (Float.ofNat rps.toNat) now
    ({ b with rate := r.1 }, r.2)

/-- Guard 2: the order as if fully filled. -/
def overPosition (b : CircuitBreaker) (intent : Intent) : Bool :=
  match b.cfg.maxPosition with
  | none => false
  | some maxPos =>
    decide ((b.position intent.instrumentId + signedQty intent.side intent.qty).abs > maxPos)

/-- Guard 3. -/
def belowFloor (b : CircuitBreaker) : Bool :=
  match b.cfg.maxDailyLossTicks with
  | none => false
  | some floor => decide (b.cashFlowTicks < -floor)

/-- Guard 4, on the two counters as they were read. -/
def overRatio (cfg : BreakerConfig) (orders trades : UInt64) : Bool :=
  match cfg.maxOrderToTradeRatio with
  | none => false
  | some maxOtr =>
    decide (cfg.otrWarmup ≤ orders) && decide (orders.toFloat / (max trades 1).toFloat > maxOtr)

def check (b : CircuitBreaker) (now : Int) (intent : Intent) : CircuitBreaker × Decision :=
  match b.haltReason with
  | some r => (b, .block r)
  | none =>
    let r := b.takeToken now
    let b := r.1
    if r.2 = false then b.latch .rateLimit
    else if b.overPosition intent then b.latch .positionCap
    else if b.belowFloor then b.latch .dailyLossFloor
    else if overRatio b.cfg b.ordersSent b.tradesDone then b.latch .orderToTradeRatio
    else ({ b with ordersSent := b.ordersSent + 1 }, .allow)

def recordFill (b : CircuitBreaker) (fill : Fill) : CircuitBreaker :=
  let signed := signedQty fill.side fill.qty
  { b with
    tradesDone := b.tradesDone + 1
    positions := b.positions.insert fill.instrumentId (b.position fill.instrumentId + signed)
    cashFlowTicks := b.cashFlowTicks + -signed * fill.priceTicks.toInt64 }

def recordGap (b : CircuitBreaker) (now : Int) : CircuitBreaker :=
  match b.cfg.gapThreshold with
  | none => b
  | some threshold =>
    let log := b.recentGaps now ++ [now]
    let b := { b with gapLog := log }
    if threshold.toNat ≤ log.length then (b.latch .feedGap).1 else b

def manualHalt (b : CircuitBreaker) : CircuitBreaker := (b.latch .manual).1

def reset (b : CircuitBreaker) : CircuitBreaker := { b with reason := none, halted := false }

def startOfDay (b : CircuitBreaker) : CircuitBreaker :=
  reset { b with ordersSent := 0, tradesDone := 0, cashFlowTicks := 0, positions := ∅, gapLog := [] }

end CircuitBreaker

/-- One call on the breaker, with the clock reading it makes. -/
inductive BreakerOp where
  | check (now : Int) (intent : Intent)
  | recordFill (fill : Fill)
  | recordGap (now : Int)
  | manualHalt
  | snapshot (now : Int)
  | reset
  | startOfDay

namespace CircuitBreaker

def apply (b : CircuitBreaker) : BreakerOp → CircuitBreaker
  | .check now intent => (b.check now intent).1
  | .recordFill fill => b.recordFill fill
  | .recordGap now => b.recordGap now
  | .manualHalt => b.manualHalt
  | .snapshot now => (b.snapshot now).1
  | .reset => b.reset
  | .startOfDay => b.startOfDay

def run (b : CircuitBreaker) (ops : List BreakerOp) : CircuitBreaker := ops.foldl apply b

/-- The flag and the reason tell the same. -/
def Agrees (b : CircuitBreaker) : Prop := b.isHalted = true ↔ b.haltReason.isSome = true

end CircuitBreaker

/-- The two calls that end a halt. -/
def BreakerOp.Clears : BreakerOp → Prop
  | .reset => True
  | .startOfDay => True
  | _ => False

namespace CircuitBreaker

/-- Every call but a clearing one leaves flag and reason as they are, or latches a reason where
there was none. -/
def HaltStep (b c : CircuitBreaker) : Prop :=
  (c.halted = b.halted ∧ c.reason = b.reason) ∨
    (b.reason = none ∧ c.halted = true ∧ ∃ r, c.reason = some r)

theorem haltStep_latch {b c : CircuitBreaker} (hh : c.halted = b.halted) (hr : c.reason = b.reason)
    (r : HaltReason) : HaltStep b (c.latch r).1 := by
  simp only [latch]
  cases hc : c.reason with
  | none => exact Or.inr ⟨hr ▸ hc, rfl, r, rfl⟩
  | some r' => exact Or.inl ⟨hh, hr⟩

theorem takeToken_halt (b : CircuitBreaker) (now : Int) :
    (b.takeToken now).1.halted = b.halted ∧ (b.takeToken now).1.reason = b.reason := by
  simp only [takeToken]
  cases b.cfg.maxOrdersPerSec with
  | none => exact ⟨rfl, rfl⟩
  | some rps => exact ⟨rfl, rfl⟩

/-- A halted breaker answers with its reason and does nothing else. -/
theorem check_halted {b : CircuitBreaker} {r : HaltReason} (h : b.haltReason = some r) (now : Int)
    (intent : Intent) : b.check now intent = (b, .block r) := by
  simp only [check, h]

theorem haltStep_check (b : CircuitBreaker) (now : Int) (intent : Intent) :
    HaltStep b (b.check now intent).1 := by
  obtain ⟨hh, hr⟩ := b.takeToken_halt now
  cases hreason : b.haltReason with
  | some r =>
    rw [check_halted hreason]
    exact Or.inl ⟨rfl, rfl⟩
  | none =>
    simp only [check, hreason]
    split_ifs
    · exact haltStep_latch hh hr _
    · exact haltStep_latch hh hr _
    · exact haltStep_latch hh hr _
    · exact haltStep_latch hh hr _
    · exact Or.inl ⟨hh, hr⟩

theorem haltStep_recordGap (b : CircuitBreaker) (now : Int) : HaltStep b (b.recordGap now) := by
  simp only [recordGap]
  cases b.cfg.gapThreshold with
  | none => exact Or.inl ⟨rfl, rfl⟩
  | some threshold =>
    dsimp only
    split_ifs
    · exact haltStep_latch rfl rfl _
    · exact Or.inl ⟨rfl, rfl⟩

theorem haltStep_apply (b : CircuitBreaker) {op : BreakerOp} (h : ¬ op.Clears) :
    HaltStep b (b.apply op) := by
  cases op with
  | check now intent => exact haltStep_check b now intent
  | recordFill fill => exact Or.inl ⟨rfl, rfl⟩
  | recordGap now => exact haltStep_recordGap b now
  | manualHalt => exact haltStep_latch rfl rfl _
  | snapshot now => exact Or.inl ⟨rfl, rfl⟩
  | reset => exact absurd trivial h
  | startOfDay => exact absurd trivial h

theorem HaltStep.agrees {b c : CircuitBreaker} (hs : HaltStep b c) (h : b.Agrees) : c.Agrees := by
  rcases hs with ⟨hh, hr⟩ | ⟨_, hh, r, hr⟩
  · simp only [Agrees, isHalted, haltReason, hh, hr]
    exact h
  · simp only [Agrees, isHalted, haltReason, hh, hr, Option.isSome_some]

theorem HaltStep.reason_kept {b c : CircuitBreaker} (hs : HaltStep b c) {r : HaltReason}
    (h : b.haltReason = some r) : c.haltReason = some r := by
  rcases hs with ⟨_, hr⟩ | ⟨hnone, _⟩
  · exact hr.trans h
  · exact absurd (hnone.symm.trans h) (by simp)

theorem agrees_reset (b : CircuitBreaker) : b.reset.Agrees := by
  simp [Agrees, reset, isHalted, haltReason]

theorem agrees_apply {b : CircuitBreaker} (h : b.Agrees) (op : BreakerOp) : (b.apply op).Agrees := by
  by_cases hc : op.Clears
  · cases op with
    | reset => exact agrees_reset b
    | startOfDay => exact agrees_reset _
    | _ => exact absurd hc id
  · exact (haltStep_apply b hc).agrees h

theorem agrees_run {b : CircuitBreaker} (h : b.Agrees) (ops : List BreakerOp) :
    (b.run ops).Agrees := by
  induction ops generalizing b with
  | nil => exact h
  | cons op ops ih => exact ih (agrees_apply h op)

theorem reason_run {b : CircuitBreaker} {r : HaltReason} (h : b.haltReason = some r)
    (ops : List BreakerOp) (hops : ∀ op ∈ ops, ¬ op.Clears) : (b.run ops).haltReason = some r := by
  induction ops generalizing b with
  | nil => exact h
  | cons op ops ih =>
    exact ih ((haltStep_apply b (hops op List.mem_cons_self)).reason_kept h)
      (fun o ho => hops o (List.mem_cons_of_mem op ho))

end CircuitBreaker

/-- Along every sequence of calls flag and reason agree, and from the first latched reason on every
check, up to the next clearing call, is refused with it and changes nothing. -/
theorem circuitBreaker_latches (cfg : BreakerConfig) (now : Int) (ops : List BreakerOp) :
    ((CircuitBreaker.new cfg now).run ops).Agrees ∧
    ∀ r, ((CircuitBreaker.new cfg now).run ops).haltReason = some r →
      ∀ rest, (∀ op ∈ rest, ¬ op.Clears) → ∀ t intent,
        ((CircuitBreaker.new cfg now).run (ops ++ rest)).check t intent =
          ((CircuitBreaker.new cfg now).run (ops ++ rest), .block r) := by
  refine ⟨CircuitBreaker.agrees_run (by simp [CircuitBreaker.Agrees, CircuitBreaker.new,
    CircuitBreaker.isHalted, CircuitBreaker.haltReason]) ops, ?_⟩
  intro r hr rest hrest t intent
  have happ : (CircuitBreaker.new cfg now).run (ops ++ rest) =
      ((CircuitBreaker.new cfg now).run ops).run rest := List.foldl_append
  rw [happ]
  exact CircuitBreaker.check_halted (CircuitBreaker.reason_run hr rest hrest) t intent

/-- A gap trips the breaker; the manual halt after it does not replace the reason. -/
theorem circuitBreaker_latches_gap :
    ((CircuitBreaker.new ⟨none, some 10, none, none, 0, some 1, 60⟩ 0).run
        [.recordGap 5, .manualHalt]).check 9 ⟨1, .buy, 3, 100⟩ =
      ((CircuitBreaker.new ⟨none, some 10, none, none, 0, some 1, 60⟩ 0).run
        [.recordGap 5, .manualHalt], .block .feedGap) := by
  refine (circuitBreaker_latches _ 0 [.recordGap 5]).2 .feedGap rfl [.manualHalt] ?_ 9 _
  intro op hop
  rw [List.mem_singleton.mp hop]
  exact id

end Flowlab.Flow
