import Flowlab.Engine.MarketData
import Flowlab.Flow.Regime

namespace Flowlab.Engine

open Flowlab.Chaos (Regime)
open Flowlab.Core (EventType HotOrderBook)
open Flowlab.Flow (RegimeClassifier RegimeInput)
open Framework.Rounding

/-- The readings of an engine that its regime is made of. -/
structure Readings where
  lastVpin : Fp
  lastImbalance : Fp
  lastBlowoutRatio : Fp
  lastMidDriftBps : Fp
  tradeVelocityBaseline : Fp
  lastTradeVel : Fp
  lastEps : UInt64

namespace Readings

def velocityRatio (r : Readings) : Fp :=
  if Fp.lt (.fin 0) r.tradeVelocityBaseline then .div r.lastTradeVel r.tradeVelocityBaseline
  else .fin 1

/-- What `build_tick` classifies; it compares the prices as `i64`. -/
def regimeInput (r : Readings) (book : HotOrderBook 256) : RegimeInput :=
  let bestBid := (book.bestBid.getD 0).toInt64
  let bestAsk := (book.bestAsk.getD 0).toInt64
  { spreadBlowoutRatio := r.lastBlowoutRatio
    bookImbalance := r.lastImbalance
    vpin := r.lastVpin
    tradeVelocityRatio := r.velocityRatio
    depthDepletion := .fin 0
    midDriftBps := r.lastMidDriftBps
    eventsPerSec := r.lastEps
    bookCrossed := decide (bestBid > 0 ∧ bestAsk > 0 ∧ bestBid ≥ bestAsk) }

/-- The label of the log line of `run`, once a second. -/
def regimeLbl (r : Readings) (book : HotOrderBook 256) : Regime :=
  let bb := book.bestBid.getD 0
  let ba := book.bestAsk.getD 0
  let sSpread := Fp.max (.sub r.lastBlowoutRatio (.fin 1)) (.fin 0)
  let sImbRaw := Fp.mul (.abs r.lastImbalance) (.fin 3)
  let sVpin := Fp.mul r.lastVpin (.fin 5)
  let sVel := Fp.mul (.abs (.sub r.velocityRatio (.fin 1))) (.ofRat (3 / 5))
  let sDrift := Fp.mul r.lastMidDriftBps (.ofRat (3 / 10))
  let crossedTop := decide (bb > 0 ∧ ba > 0 ∧ bb ≥ ba)
  let sImb := if crossedTop then .fin 0 else sImbRaw
  let sSpreadEff := if crossedTop then .fin 0 else sSpread
  let rawScore := Fp.add (.add (.add (.add sSpreadEff sImb) sVpin) sVel) sDrift
  let freshness := Fp.min (.div (.ofU64 r.lastEps) (.fin 30)) (.fin 1)
  let score := Fp.mul rawScore freshness
  if Fp.le (.ofRat 3) score then .crisis
  else if Fp.le (.ofRat (3 / 2)) score then .aggressive
  else if Fp.le (.ofRat (3 / 5)) score then .volatile
  else .calm

theorem crossed_eq {bb ba : UInt64} (hb : bb.toNat < 2 ^ 63) (ha : ba.toNat < 2 ^ 63) :
    decide (bb.toInt64 > 0 ∧ ba.toInt64 > 0 ∧ bb.toInt64 ≥ ba.toInt64) =
      decide (bb > 0 ∧ ba > 0 ∧ bb ≥ ba) := by
  simp only [gt_iff_lt, ge_iff_le, Int64.lt_iff_toInt_lt, Int64.le_iff_toInt_le, toInt_toInt64,
    if_pos hb, if_pos ha, UInt64.lt_iff_toNat_lt, UInt64.le_iff_toNat_le]
  simp

theorem depth_score : Fp.mul (.fin 0) (.fin 3) = .fin 0 := by
  rw [Fp.mul, zero_mul, Fp.ofRat_zero]

/-- Nothing is left of a score on a dead tape. -/
theorem mul_zero_cases (x : Fp) : Fp.mul x (.fin 0) = .nan ∨ Fp.mul x (.fin 0) = .fin 0 := by
  cases x with
  | nan => exact .inl rfl
  | inf n => exact .inl rfl
  | fin q =>
    refine .inr ?_
    rw [Fp.mul, mul_zero, Fp.ofRat_zero]

theorem calm_of_dead (r : Readings) (book : HotOrderBook 256) (hdead : r.lastEps = 0) :
    r.regimeLbl book = .calm := by
  have hfresh : Fp.min (.div (.ofU64 r.lastEps) (.fin 30)) (.fin 1) = .fin 0 := by
    have hcast : Fp.ofU64 r.lastEps = .fin 0 := by
      rw [hdead, Fp.ofU64, UInt64.toNat_zero, Nat.cast_zero, Fp.ofRat_zero]
    rw [hcast, Fp.div, if_neg (by norm_num), zero_div, Fp.ofRat_zero]
    simp [Fp.min, Fp.lt]
  have hbelow : ∀ x : Fp, ∀ q : ℚ, 1 / 4 ≤ q → q ≤ 4 →
      Fp.le (.ofRat q) (.mul x (.fin 0)) = false := by
    intro x q hlow hhigh
    obtain ⟨w, hw, hpos⟩ := Fp.ofRat_pos hlow hhigh
    rw [hw]
    rcases mul_zero_cases x with hnan | hzero
    · rw [hnan]
      rfl
    · rw [hzero]
      exact Bool.eq_false_iff.mpr fun h => absurd (Fp.le_fin.mp h) (not_le.mpr hpos)
  simp only [regimeLbl, hfresh]
  rw [hbelow _ 3 (by norm_num) (by norm_num), hbelow _ (3 / 2) (by norm_num) (by norm_num),
    hbelow _ (3 / 5) (by norm_num) (by norm_num)]
  rfl

/-- On a live tape both scores are one. -/
theorem score_eq (r : Readings) {book : HotOrderBook 256}
    (hbid : (book.bestBid.getD 0).toNat < 2 ^ 63) (hask : (book.bestAsk.getD 0).toNat < 2 ^ 63)
    (hlive : r.lastEps ≠ 0) :
    r.regimeLbl book = RegimeClassifier.default.classify (r.regimeInput book) := by
  have hcrossed := crossed_eq hbid hask
  simp only [regimeLbl, RegimeClassifier.classify, RegimeInput.compositeScore,
    RegimeInput.spreadScore, RegimeInput.imbalanceScore, RegimeInput.velocityScore,
    RegimeInput.freshness, regimeInput, hcrossed, if_neg hlive, depth_score, Fp.add_add_zero]
  rfl

/-- **The log line against the tick.** With prices that an `i64` holds, the label in the log is the
regime of the tick exactly where the event rate is not 0 or the tick says calm: at the rate 0 the
log always says calm, and the tick takes the rate as unknown and damps nothing. -/
theorem label_matches_iff (r : Readings) {book : HotOrderBook 256}
    (hbid : (book.bestBid.getD 0).toNat < 2 ^ 63) (hask : (book.bestAsk.getD 0).toNat < 2 ^ 63) :
    r.regimeLbl book = RegimeClassifier.default.classify (r.regimeInput book) ↔
      r.lastEps ≠ 0 ∨ RegimeClassifier.default.classify (r.regimeInput book) = .calm := by
  by_cases hdead : r.lastEps = 0
  · rw [calm_of_dead r book hdead]
    simp only [hdead, ne_eq, not_true_eq_false, false_or]
    exact eq_comm
  · simp only [score_eq r hbid hask hdead, ne_eq, hdead, not_false_eq_true, true_or]

/-- A bid of 5 and an ask of 3. -/
def twoOrders : HotOrderBook 256 :=
  (HotOrderBook.new 256 1).run [⟨1, 100, 5, 1, 1, EventType.orderAdd.toU8, 0⟩,
    ⟨2, 103, 3, 2, 1, EventType.orderAdd.toU8, 1⟩]

/-- Toxic flow, at some rate. -/
def toxic (lastEps : UInt64) : Readings :=
  ⟨.fin 1, .fin (1 / 4), .fin 1, .fin 0, .fin 0, .fin 0, lastEps⟩

/-- On a live tape the log and the tick agree; on a dead one the log says calm under a crisis. -/
theorem label_matches_toxic :
    (toxic 40).regimeLbl twoOrders =
        RegimeClassifier.default.classify ((toxic 40).regimeInput twoOrders) ∧
      RegimeClassifier.default.classify ((toxic 0).regimeInput twoOrders) = .crisis ∧
      (toxic 0).regimeLbl twoOrders ≠
        RegimeClassifier.default.classify ((toxic 0).regimeInput twoOrders) := by
  have htouch : twoOrders.bestBid = some 100 ∧ twoOrders.bestAsk = some 103 := by decide +kernel
  have hbid : (twoOrders.bestBid.getD 0).toNat < 2 ^ 63 := by
    rw [htouch.1]
    decide
  have hask : (twoOrders.bestAsk.getD 0).toNat < 2 ^ 63 := by
    rw [htouch.2]
    decide
  have hcrisis : RegimeClassifier.default.classify ((toxic 0).regimeInput twoOrders) = .crisis := by
    decide +kernel
  refine ⟨(label_matches_iff (toxic 40) hbid hask).mpr (.inl (by decide)), hcrisis, ?_⟩
  intro hsame
  rcases (label_matches_iff (toxic 0) hbid hask).mp hsame with hlive | hcalm
  · exact hlive rfl
  · rw [hcrisis] at hcalm
    cases hcalm

end Readings

end Flowlab.Engine
