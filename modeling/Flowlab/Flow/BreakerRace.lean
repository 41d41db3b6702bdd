import Flowlab.Flow.CircuitBreaker
import Flowlab.Framework.Machine

namespace Flowlab.Flow

open Framework

/-- Where a thread stands inside a call: the step it takes next, with the values it has read. Each
step is one mutex-protected section or one atomic access. -/
inductive BreakerPc where
  | idle
  | checkReason (intent : Intent)
  | checkRate (intent : Intent)
  | checkPosition (intent : Intent)
  | checkFloor
  | checkOrders
  | checkTrades (orders : UInt64)
  | countOrder
  | latch (reason : HaltReason)
  | logGap
  | clearReason
  | clearFlag
  | fillTrades (fill : Fill)
  | fillPosition (fill : Fill)
  | fillCash (fill : Fill)
  | dayOrders
  | dayTrades
  | dayCash
  | dayPositions
  | dayGaps
  | readOrders
  | readTrades
  | readCash
  | readPositions
  | readGaps
  | readHalted
  | readReason

/-- The first step of a call. -/
def BreakerOp.entry : BreakerOp → BreakerPc
  | .check _ intent => .checkReason intent
  | .recordFill fill => .fillTrades fill
  | .recordGap _ => .logGap
  | .manualHalt => .latch .manual
  | .snapshot _ => .readOrders
  | .reset => .clearReason
  | .startOfDay => .dayOrders

/-- One step of a call at clock reading `now`, and where the thread stands after it. -/
def CircuitBreaker.advance (b : CircuitBreaker) (now : Int) :
    BreakerPc → CircuitBreaker × BreakerPc
  | .idle => (b, .idle)
  | .checkReason intent => (b, if b.reason.isSome then .idle else .checkRate intent)
  | .checkRate intent =>
    let r := b.takeToken now
    (r.1, if r.2 then .checkPosition intent else .latch .rateLimit)
  | .checkPosition intent =>
    (b, if b.overPosition intent then .latch .positionCap else .checkFloor)
  | .checkFloor => (b, if b.belowFloor then .latch .dailyLossFloor else .checkOrders)
  | .checkOrders => (b, .checkTrades b.ordersSent)
  | .checkTrades orders =>
    (b, if overRatio b.cfg orders b.tradesDone then .latch .orderToTradeRatio else .countOrder)
  | .countOrder => ({ b with ordersSent := b.ordersSent + 1 }, .idle)
  | .latch reason => ((b.latch reason).1, .idle)
  | .logGap =>
    match b.cfg.gapThreshold with
    | none => (b, .idle)
    | some threshold =>
      let log := b.recentGaps now ++ [now]
      ({ b with gapLog := log }, if threshold.toNat ≤ log.length then .latch .feedGap else .idle)
  | .clearReason => ({ b with reason := none }, .clearFlag)
  | .clearFlag => ({ b with halted := false }, .idle)
  | .fillTrades fill => ({ b with tradesDone := b.tradesDone + 1 }, .fillPosition fill)
  | .fillPosition fill =>
    ({ b with
        positions := b.positions.insert fill.instrumentId
          (b.position fill.instrumentId + signedQty fill.side fill.qty) }, .fillCash fill)
  | .fillCash fill =>
    ({ b with
        cashFlowTicks :=
          b.cashFlowTicks + -signedQty fill.side fill.qty * fill.priceTicks.toInt64 }, .idle)
  | .dayOrders => ({ b with ordersSent := 0 }, .dayTrades)
  | .dayTrades => ({ b with tradesDone := 0 }, .dayCash)
  | .dayCash => ({ b with cashFlowTicks := 0 }, .dayPositions)
  | .dayPositions => ({ b with positions := ∅ }, .dayGaps)
  | .dayGaps => ({ b with gapLog := [] }, .clearReason)
  | .readOrders => (b, .readTrades)
  | .readTrades => (b, .readCash)
  | .readCash => (b, .readPositions)
  | .readPositions => (b, .readGaps)
  | .readGaps => ({ b with gapLog := b.recentGaps now }, .readHalted)
  | .readHalted => (b, .readReason)
  | .readReason => (b, .idle)

/-- A breaker shared by any number of threads. -/
structure BreakerRace where
  breaker : CircuitBreaker
  pc : Nat → BreakerPc

/-- What the scheduler lets a thread do: start a call when it is in none, or take its next step. -/
inductive BreakerAct where
  | call (op : BreakerOp)
  | advance (now : Int)

namespace BreakerRace

def start (cfg : BreakerConfig) (now : Int) : BreakerRace :=
  ⟨CircuitBreaker.new cfg now, fun _ => .idle⟩

def step (s : BreakerRace) (i : Nat × BreakerAct) : BreakerRace :=
  match i.2 with
  | .call op =>
    match s.pc i.1 with
    | .idle => { s with pc := Function.update s.pc i.1 op.entry }
    | _ => s
  | .advance now =>
    let r := s.breaker.advance now (s.pc i.1)
    ⟨r.1, Function.update s.pc i.1 r.2⟩

def run (s : BreakerRace) (schedule : List (Nat × BreakerAct)) : BreakerRace :=
  schedule.foldl step s

/-- No call is in progress. -/
def Quiescent (s : BreakerRace) : Prop := ∀ t, s.pc t = .idle

/-- Some reset has cleared the reason and not yet the flag. -/
def Resetting (s : BreakerRace) : Prop := ∃ t, s.pc t = .clearFlag

/-- The next step does not set a halt reason in the middle of a reset. -/
def LatchesApart (s : BreakerRace) (i : Nat × BreakerAct) : Prop :=
  ∀ now r, i.2 = .advance now → s.pc i.1 = .latch r → s.breaker.reason = none → ¬ s.Resetting

/-- In the middle of a reset there is no reason; a reason has the flag up; a flag without a reason
is about to be taken down. -/
structure Inv (s : BreakerRace) : Prop where
  cleared : s.Resetting → s.breaker.reason = none
  raised : s.breaker.reason ≠ none → s.breaker.halted = true
  pending : s.breaker.halted = true → s.breaker.reason = none → s.Resetting

end BreakerRace

/-- The steps that touch neither flag nor reason. -/
def BreakerPc.Quiet : BreakerPc → Prop
  | .latch _ => False
  | .clearReason => False
  | .clearFlag => False
  | _ => True

theorem CircuitBreaker.advance_quiet (b : CircuitBreaker) (now : Int) (pc : BreakerPc)
    (h : pc.Quiet) :
    (b.advance now pc).1.halted = b.halted ∧ (b.advance now pc).1.reason = b.reason ∧
      (b.advance now pc).2 ≠ .clearFlag := by
  cases pc with
  | checkRate intent =>
    obtain ⟨hh, hr⟩ := b.takeToken_halt now
    refine ⟨hh, hr, ?_⟩
    simp only [advance]
    split_ifs <;> simp
  | logGap =>
    simp only [advance]
    cases b.cfg.gapThreshold with
    | none => exact ⟨rfl, rfl, by simp⟩
    | some threshold =>
      refine ⟨rfl, rfl, ?_⟩
      dsimp only
      split_ifs <;> simp
  | latch reason => exact absurd h id
  | clearReason => exact absurd h id
  | clearFlag => exact absurd h id
  | _ =>
    refine ⟨rfl, rfl, ?_⟩
    simp only [advance]
    try split_ifs
    all_goals simp

namespace BreakerRace

/-- Moving one thread off a step other than the second half of a reset, to another such step,
leaves the resets in progress as they are. -/
theorem resetting_update {s : BreakerRace} {t : Nat} {pc : BreakerPc} (b : CircuitBreaker)
    (hold : s.pc t ≠ .clearFlag) (hnew : pc ≠ .clearFlag) :
    (⟨b, Function.update s.pc t pc⟩ : BreakerRace).Resetting ↔ s.Resetting := by
  refine exists_congr fun u => ?_
  by_cases hu : u = t
  · subst hu
    simp only [Function.update_self]
    exact iff_of_false hnew hold
  · simp only [Function.update_of_ne hu]

/-- A step that changes neither flag nor reason and no reset in progress. -/
theorem Inv.quiet {s : BreakerRace} (h : s.Inv) {t : Nat} {pc : BreakerPc} {b : CircuitBreaker}
    (hold : s.pc t ≠ .clearFlag) (hnew : pc ≠ .clearFlag) (hh : b.halted = s.breaker.halted)
    (hr : b.reason = s.breaker.reason) : (⟨b, Function.update s.pc t pc⟩ : BreakerRace).Inv := by
  have hres := resetting_update b hold hnew
  refine ⟨?_, ?_, ?_⟩
  · rw [hres, hr]
    exact h.cleared
  · rw [hr, hh]
    exact h.raised
  · rw [hres, hr, hh]
    exact h.pending

theorem entry_ne_clearFlag (op : BreakerOp) : op.entry ≠ .clearFlag := by
  cases op <;> simp [BreakerOp.entry]

theorem inv_start (cfg : BreakerConfig) (now : Int) : (start cfg now).Inv where
  cleared _ := rfl
  raised h := absurd rfl h
  pending h := absurd h (by simp [start, CircuitBreaker.new])

theorem inv_call {s : BreakerRace} (h : s.Inv) (t : Nat) (op : BreakerOp) :
    (s.step (t, .call op)).Inv := by
  simp only [step]
  cases hpc : s.pc t with
  | idle => exact h.quiet (by simp [hpc]) (entry_ne_clearFlag op) rfl rfl
  | _ => exact h

/-- A latch, with no reset halfway, sets reason and flag together. -/
theorem inv_latch {s : BreakerRace} (h : s.Inv) {t : Nat} {r : HaltReason} (hpc : s.pc t = .latch r)
    (hapart : s.breaker.reason = none → ¬ s.Resetting) :
    (⟨(s.breaker.latch r).1, Function.update s.pc t .idle⟩ : BreakerRace).Inv := by
  have hold : s.pc t ≠ .clearFlag := by simp [hpc]
  simp only [CircuitBreaker.latch]
  cases hr : s.breaker.reason with
  | some r' => exact h.quiet hold (by simp) rfl rfl
  | none =>
    refine ⟨?_, fun _ => rfl, ?_⟩
    · intro hres
      exact absurd ((resetting_update _ hold (by simp)).mp hres) (hapart hr)
    · intro _ hnone
      exact absurd hnone (by simp)

theorem inv_clearReason (s : BreakerRace) (t : Nat) :
    (⟨{ s.breaker with reason := none }, Function.update s.pc t .clearFlag⟩ : BreakerRace).Inv where
  cleared _ := rfl
  raised hne := absurd rfl hne
  pending _ _ := ⟨t, Function.update_self ..⟩

theorem inv_clearFlag {s : BreakerRace} (h : s.Inv) {t : Nat} (hpc : s.pc t = .clearFlag) :
    (⟨{ s.breaker with halted := false }, Function.update s.pc t .idle⟩ : BreakerRace).Inv := by
  have hnone := h.cleared ⟨t, hpc⟩
  exact ⟨fun _ => hnone, fun hne => absurd hnone hne, fun hh => absurd hh (by simp)⟩

theorem inv_step {s : BreakerRace} (h : s.Inv) {i : Nat × BreakerAct} (hi : s.LatchesApart i) :
    (s.step i).Inv := by
  obtain ⟨t, act⟩ := i
  cases act with
  | call op => exact inv_call h t op
  | advance now =>
    simp only [step]
    cases hpc : s.pc t with
    | latch r => exact inv_latch h hpc (hi now r rfl hpc)
    | clearReason => exact inv_clearReason s t
    | clearFlag => exact inv_clearFlag h hpc
    | _ =>
      rw [← hpc]
      obtain ⟨hh, hr, hnew⟩ := s.breaker.advance_quiet now (s.pc t) (by rw [hpc]; trivial)
      exact h.quiet (by simp [hpc]) hnew hh hr

theorem Inv.agrees {s : BreakerRace} (h : s.Inv) (hq : s.Quiescent) : s.breaker.Agrees := by
  have hno : ¬ s.Resetting := by
    intro hres
    obtain ⟨t, ht⟩ := hres
    rw [hq t] at ht
    exact absurd ht (by simp)
  refine ⟨?_, ?_⟩
  · intro hh
    by_contra hsome
    exact hno (h.pending hh (Option.not_isSome_iff_eq_none.mp hsome))
  · intro hsome
    exact h.raised (Option.isSome_iff_ne_none.mp hsome)

end BreakerRace

/-- Over every interleaving in which no reason is set in the middle of a reset, flag and reason
agree whenever no call is in progress. -/
theorem breakerRace_agrees (cfg : BreakerConfig) (now : Int)
    (schedule : List (Nat × BreakerAct))
    (hapart : ∀ p i, p ++ [i] <+: schedule → ((BreakerRace.start cfg now).run p).LatchesApart i) :
    ∀ p, p <+: schedule → ((BreakerRace.start cfg now).run p).Quiescent →
      ((BreakerRace.start cfg now).run p).breaker.Agrees := by
  intro p hp hq
  have hinv : ((BreakerRace.start cfg now).run p).Inv :=
    Machine.foldl_rule (P := BreakerRace.Inv) (fun s i h hi => BreakerRace.inv_step h hi)
      (BreakerRace.inv_start cfg now) p (fun q i hi => hapart q i (hi.trans hp))
  exact hinv.agrees hq

/-- A manual halt on its own, then a reset on its own. -/
theorem breakerRace_agrees_halt_then_reset :
    ((BreakerRace.start ⟨none, none, none, none, 0, none, 0⟩ 0).run
      [(0, .call .manualHalt), (0, .advance 1), (1, .call .reset), (1, .advance 2),
        (1, .advance 3)]).breaker.Agrees := by
  refine breakerRace_agrees _ 0 _ ?_ _ List.prefix_rfl ?_
  · intro p i hp now r hact hpc _ hres
    obtain ⟨t, ht⟩ := hres
    rcases p with _ | ⟨p₀, _ | ⟨p₁, _ | ⟨p₂, _ | ⟨p₃, _ | ⟨p₄, p⟩⟩⟩⟩⟩ <;> simp at hp
    · rw [hp] at hact
      exact absurd hact (by simp)
    · rw [hp.1] at ht
      by_cases h0 : t = 0 <;>
        simp [BreakerRace.run, BreakerRace.step, BreakerRace.start, BreakerOp.entry, h0] at ht
    · rw [hp.2.2] at hact
      exact absurd hact (by simp)
    · rw [hp.1, hp.2.1, hp.2.2.1, hp.2.2.2] at hpc
      simp [BreakerRace.run, BreakerRace.step, BreakerRace.start, BreakerOp.entry,
        CircuitBreaker.advance] at hpc
    · rw [hp.1, hp.2.1, hp.2.2.1, hp.2.2.2.1, hp.2.2.2.2] at hpc
      simp [BreakerRace.run, BreakerRace.step, BreakerRace.start, BreakerOp.entry,
        CircuitBreaker.advance] at hpc
  · intro t
    by_cases h0 : t = 0 <;> by_cases h1 : t = 1 <;>
      simp [BreakerRace.run, BreakerRace.step, BreakerRace.start, BreakerOp.entry,
        CircuitBreaker.advance, h0, h1]

/-- A manual halt between the two halves of a reset leaves its reason standing with the flag down. -/
theorem breakerRace_halt_inside_reset :
    ((BreakerRace.start ⟨none, none, none, none, 0, none, 0⟩ 0).run
      [(1, .call .reset), (1, .advance 1), (0, .call .manualHalt), (0, .advance 2),
        (1, .advance 3)]).Quiescent ∧
    ¬ ((BreakerRace.start ⟨none, none, none, none, 0, none, 0⟩ 0).run
      [(1, .call .reset), (1, .advance 1), (0, .call .manualHalt), (0, .advance 2),
        (1, .advance 3)]).breaker.Agrees := by
  refine ⟨?_, ?_⟩
  · intro t
    by_cases h0 : t = 0 <;> by_cases h1 : t = 1 <;>
      simp [BreakerRace.run, BreakerRace.step, BreakerRace.start, BreakerOp.entry,
        CircuitBreaker.advance, h0, h1]
  · simp [BreakerRace.run, BreakerRace.step, BreakerRace.start, BreakerOp.entry,
      CircuitBreaker.advance, CircuitBreaker.latch, CircuitBreaker.new, CircuitBreaker.Agrees,
      CircuitBreaker.isHalted, CircuitBreaker.haltReason]

end Flowlab.Flow
