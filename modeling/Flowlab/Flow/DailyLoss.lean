import Flowlab.Flow.PositionCap

namespace Flowlab.Flow

open Framework

/-- What a fill brings in: a sell earns its price, a buy pays it. -/
def Fill.cash (fill : Fill) : Int := -fill.side.signed fill.qty.toNat * fill.priceTicks.toNat

def BreakerOp.cash : BreakerOp → Int
  | .recordFill fill => fill.cash
  | _ => 0

/-- The cash flow of the fills among some calls, over the integers. -/
def exactCash (ops : List BreakerOp) : Int := (ops.map BreakerOp.cash).sum

theorem signedQty_eq_ofInt (side : OrderSide) (qty : UInt32) :
    signedQty side qty = Int64.ofInt (side.signed qty.toNat) := by
  cases side <;> simp [signedQty, OrderSide.signed, Int64.ofInt_eq_ofNat]

theorem toInt64_eq_ofInt (p : UInt64) : p.toInt64 = Int64.ofInt p.toNat := by
  rw [Int64.ofInt_eq_ofNat]
  exact congrArg UInt64.toInt64 (UInt64.ofNat_toNat (x := p)).symm

/-- Where the reduction of an integer to 64 bits lies below a limit that is not positive. -/
theorem bmod_lt_neg_iff {x f : Int} (hf : 0 ≤ f) :
    x.bmod (2 ^ 64) < -f ↔ f < -x % 2 ^ 64 ∧ -x % 2 ^ 64 ≤ 2 ^ 63 := by
  rw [Int.bmod_def]
  norm_num
  split_ifs <;> omega

namespace CircuitBreaker

/-- The accumulator is the exact cash flow, reduced to 64 bits. -/
theorem cashFlow_recordFill (b : CircuitBreaker) (fill : Fill) {x : Int}
    (h : b.cashFlowTicks = Int64.ofInt x) :
    (b.recordFill fill).cashFlowTicks = Int64.ofInt (x + fill.cash) := by
  rw [Fill.cash, Int64.ofInt_add, Int64.ofInt_mul, Int64.ofInt_neg, ← signedQty_eq_ofInt,
    ← toInt64_eq_ofInt, ← h]
  rfl

theorem latch_cash (b : CircuitBreaker) (r : HaltReason) :
    (b.latch r).1.cashFlowTicks = b.cashFlowTicks := by
  simp only [latch]
  cases b.reason <;> rfl

theorem takeToken_cash (b : CircuitBreaker) (now : Int) :
    (b.takeToken now).1.cashFlowTicks = b.cashFlowTicks := by
  simp only [takeToken]
  cases b.cfg.maxOrdersPerSec <;> rfl

theorem check_cash (b : CircuitBreaker) (now : Int) (intent : Intent) :
    (b.check now intent).1.cashFlowTicks = b.cashFlowTicks := by
  cases hr : b.haltReason with
  | some r => rw [check_halted hr]
  | none =>
    simp only [check, hr]
    split_ifs <;> simp [latch_cash, takeToken_cash]

theorem recordGap_cash (b : CircuitBreaker) (now : Int) :
    (b.recordGap now).cashFlowTicks = b.cashFlowTicks := by
  simp only [recordGap]
  cases b.cfg.gapThreshold with
  | none => rfl
  | some threshold =>
    dsimp only
    split_ifs <;> simp [latch_cash]

theorem recordGap_cfg (b : CircuitBreaker) (now : Int) : (b.recordGap now).cfg = b.cfg := by
  simp only [recordGap]
  cases b.cfg.gapThreshold with
  | none => rfl
  | some threshold =>
    dsimp only
    split_ifs <;> simp [latch_cfg]

theorem apply_cfg (b : CircuitBreaker) (op : BreakerOp) : (b.apply op).cfg = b.cfg := by
  cases op with
  | check now intent => exact (b.check_spec now intent).1
  | recordGap now => exact recordGap_cfg b now
  | manualHalt => exact latch_cfg b .manual
  | _ => rfl

theorem run_cfg (b : CircuitBreaker) (ops : List BreakerOp) : (b.run ops).cfg = b.cfg := by
  induction ops generalizing b with
  | nil => rfl
  | cons op ops ih => exact (ih (b.apply op)).trans (apply_cfg b op)

theorem cashFlow_apply (b : CircuitBreaker) {op : BreakerOp} (hop : op ≠ .startOfDay) {x : Int}
    (h : b.cashFlowTicks = Int64.ofInt x) :
    (b.apply op).cashFlowTicks = Int64.ofInt (x + op.cash) := by
  cases op with
  | recordFill fill => exact cashFlow_recordFill b fill h
  | check now intent => simpa [BreakerOp.cash, apply, check_cash] using h
  | recordGap now => simpa [BreakerOp.cash, apply, recordGap_cash] using h
  | manualHalt => simpa [BreakerOp.cash, apply, manualHalt, latch_cash] using h
  | snapshot now => simpa [BreakerOp.cash, apply, snapshot] using h
  | reset => simpa [BreakerOp.cash, apply, reset] using h
  | startOfDay => exact absurd rfl hop

theorem cashFlow_run (b : CircuitBreaker) {ops : List BreakerOp}
    (hops : ∀ op ∈ ops, op ≠ .startOfDay) {x : Int} (h : b.cashFlowTicks = Int64.ofInt x) :
    (b.run ops).cashFlowTicks = Int64.ofInt (x + exactCash ops) := by
  induction ops generalizing b x with
  | nil => simpa [exactCash, run] using h
  | cons op ops ih =>
    have hstep := cashFlow_apply b (hops op List.mem_cons_self) h
    have hrun := ih (b.apply op) (fun o ho => hops o (List.mem_cons_of_mem op ho)) hstep
    rw [run, List.foldl_cons]
    simpa [exactCash, run, Int.add_assoc] using hrun

/-- No guard but the daily loss floor stands against an intent. -/
structure Clear (b : CircuitBreaker) (now : Int) (intent : Intent) : Prop where
  running : b.haltReason = none
  rate : (b.takeToken now).2 = true
  position : b.overPosition intent = false
  ratio : overRatio b.cfg b.ordersSent b.tradesDone = false

theorem takeToken_overPosition (b : CircuitBreaker) (now : Int) (intent : Intent) :
    (b.takeToken now).1.overPosition intent = b.overPosition intent := by
  simp only [overPosition, takeToken_cfg, takeToken_position]

theorem takeToken_belowFloor (b : CircuitBreaker) (now : Int) :
    (b.takeToken now).1.belowFloor = b.belowFloor := by
  simp only [belowFloor, takeToken_cfg, takeToken_cash]

theorem takeToken_counters (b : CircuitBreaker) (now : Int) :
    (b.takeToken now).1.ordersSent = b.ordersSent ∧
    (b.takeToken now).1.tradesDone = b.tradesDone ∧ (b.takeToken now).1.reason = b.reason := by
  simp only [takeToken]
  cases b.cfg.maxOrdersPerSec <;> exact ⟨rfl, rfl, rfl⟩

/-- Where no other guard speaks, the floor alone decides. -/
theorem Clear.check_iff {b : CircuitBreaker} {now : Int} {intent : Intent}
    (h : b.Clear now intent) :
    (b.check now intent).2 = .block .dailyLossFloor ↔ b.belowFloor = true := by
  obtain ⟨ho, ht, hr⟩ := b.takeToken_counters now
  have hratio : overRatio (b.takeToken now).1.cfg (b.takeToken now).1.ordersSent
      (b.takeToken now).1.tradesDone = false := by
    rw [takeToken_cfg, ho, ht]
    exact h.ratio
  have hnone : (b.takeToken now).1.reason = none := hr.trans h.running
  simp only [check, h.running, h.rate, takeToken_overPosition, h.position, takeToken_belowFloor,
    hratio]
  cases b.belowFloor <;> simp [latch, hnone]

theorem belowFloor_iff {b : CircuitBreaker} {floor : Int64}
    (hcfg : b.cfg.maxDailyLossTicks = some floor) (hfloor : 0 ≤ floor.toInt) {x : Int}
    (h : b.cashFlowTicks = Int64.ofInt x) :
    b.belowFloor = true ↔ floor.toInt < -x % 2 ^ 64 ∧ -x % 2 ^ 64 ≤ 2 ^ 63 := by
  have hneg : (-floor).toInt = -floor.toInt := by
    have hlt := floor.toInt_lt
    rw [Int64.toInt_neg]
    exact Int.bmod_eq_of_le (by norm_num; omega) (by norm_num; omega)
  rw [belowFloor, hcfg]
  simp only [decide_eq_true_eq]
  rw [Int64.lt_iff_toInt_lt, h, hneg, Int64.toInt_ofInt]
  exact bmod_lt_neg_iff hfloor

end CircuitBreaker

/-- From the start of a day on, a check that nothing else stops is stopped by a loss beyond the floor
exactly when the loss, reduced modulo 2^64, is still beyond it and at most 2^63. -/
theorem check_blocks_loss_iff (b : CircuitBreaker) {floor : Int64}
    (hcfg : b.cfg.maxDailyLossTicks = some floor) (hfloor : 0 ≤ floor.toInt) {ops : List BreakerOp}
    (hops : ∀ op ∈ ops, op ≠ .startOfDay) {now : Int} {intent : Intent}
    (hclear : (b.startOfDay.run ops).Clear now intent) :
    (exactCash ops < -floor.toInt →
        ((b.startOfDay.run ops).check now intent).2 = .block .dailyLossFloor) ↔
      (exactCash ops < -floor.toInt →
        floor.toInt < -exactCash ops % 2 ^ 64 ∧ -exactCash ops % 2 ^ 64 ≤ 2 ^ 63) := by
  have hcash := CircuitBreaker.cashFlow_run b.startOfDay hops (x := 0) rfl
  rw [Int.zero_add] at hcash
  have hcfg' : (b.startOfDay.run ops).cfg.maxDailyLossTicks = some floor := by
    rw [CircuitBreaker.run_cfg]
    exact hcfg
  rw [hclear.check_iff, CircuitBreaker.belowFloor_iff hcfg' hfloor hcash]

/-- A loss of 10 against a floor of 5. -/
theorem check_blocks_loss_iff_ten :
    (((CircuitBreaker.new ⟨none, none, some 5, none, 0, none, 0⟩ 0).startOfDay.run
      [.recordFill ⟨1, .buy, 10, 1⟩]).check 1 ⟨1, .buy, 1, 1⟩).2 = .block .dailyLossFloor :=
  (check_blocks_loss_iff (CircuitBreaker.new ⟨none, none, some 5, none, 0, none, 0⟩ 0) rfl
    (by decide) (by simp) ⟨rfl, rfl, rfl, rfl⟩).mpr (fun _ => by decide) (by decide)

/-- A purchase at the largest price of the type counts as a profit of 1. -/
theorem check_allows_loss :
    ((CircuitBreaker.new ⟨none, none, some 5, none, 0, none, 0⟩ 0).startOfDay.run
      [.recordFill ⟨1, .buy, 1, 18446744073709551615⟩]).Clear 1 ⟨1, .buy, 1, 1⟩ ∧
    exactCash [.recordFill ⟨1, .buy, 1, 18446744073709551615⟩] < -5 ∧
    (((CircuitBreaker.new ⟨none, none, some 5, none, 0, none, 0⟩ 0).startOfDay.run
      [.recordFill ⟨1, .buy, 1, 18446744073709551615⟩]).check 1 ⟨1, .buy, 1, 1⟩).2 = .allow :=
  ⟨⟨rfl, rfl, rfl, rfl⟩, by decide, rfl⟩

end Flowlab.Flow
