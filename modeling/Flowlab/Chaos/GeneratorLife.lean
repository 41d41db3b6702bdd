import Flowlab.Chaos.GeneratorStep

namespace Flowlab.Chaos

open Framework Rounding Writer
open Flowlab.Core (Event EventType Side SequencedEvent satSub64 satSub32 satSub32_toNat)

theorem toNat_pred32 {a : UInt32} (h : 0 < a.toNat) : (a - 1).toNat = a.toNat - 1 := by
  have h1 : (1 : UInt32).toNat = 1 := rfl
  have hle : (1 : UInt32) ≤ a := UInt32.le_iff_toNat_le.mpr (by omega)
  rw [UInt32.toNat_sub_of_le a 1 hle, h1]

/-- Taking at most `rem` from `rem`. -/
theorem take_satSub32 (per rem : UInt32) :
    (min per rem).toNat * 1 + (satSub32 rem (min per rem)).toNat ≤ rem.toNat := by
  rw [satSub32_toNat, toNat_min32]
  omega

theorem pos_of_ne_zero32 {a : UInt32} (h : ¬ a = 0) : 0 < a.toNat := by
  have h0 : (0 : UInt32).toNat = 0 := rfl
  have hne : a.toNat ≠ 0 := fun hc => h (UInt32.toNat_inj.mp (hc.trans h0.symm))
  omega

namespace Generator

/-- The most numbers a step moves the sequence by. -/
def stepEvents : Generator → ℕ
  | phantomLiquidity g => (min g.cyclesPerStep g.cyclesRemaining).toNat * 2
  | quoteStuff g => g.tradesPerStep.toNat * (1 + g.cancelsPerTrade.toNat * 1)
  | spoof g => (min g.cyclesPerStep g.cyclesRemaining).toNat * 2
  | cancellationStorm g => 4096 + g.batch.toNat * 1
  | momentumIgnition g => 2 + (min g.cyclesPerStep g.cyclesRemaining).toNat * 3
  | flashCrash _ => 10
  | latencyArbProxy g => 20 + (1 + g.burstSize.toNat * 1)

/-- The most ids a step takes. -/
def stepIds : Generator → ℕ
  | phantomLiquidity g => (min g.cyclesPerStep g.cyclesRemaining).toNat * 1
  | quoteStuff g => g.tradesPerStep.toNat * (1 + g.cancelsPerTrade.toNat * 1)
  | spoof g => (min g.cyclesPerStep g.cyclesRemaining).toNat * 1
  | cancellationStorm g => g.batch.toNat * 1
  | momentumIgnition g =>
    (if g.seeded then 0 else 2) + (min g.cyclesPerStep g.cyclesRemaining).toNat * 3
  | flashCrash _ => 8
  | latencyArbProxy g => (if g.seeded then 0 else 20) + (1 + g.burstSize.toNat * 1)

theorem step_batch (g : Generator) (nowNs baseSeq : UInt64) :
    Batch g.stepEvents g.stepIds g.nextOid baseSeq (g.step nowNs baseSeq).1
      (g.step nowNs baseSeq).2.nextOid := by
  cases g with
  | phantomLiquidity g => exact g.step_batch nowNs baseSeq
  | quoteStuff g => exact g.step_batch nowNs baseSeq
  | spoof g => exact g.step_batch nowNs baseSeq
  | cancellationStorm g => exact g.step_batch nowNs baseSeq
  | momentumIgnition g => exact g.step_batch nowNs baseSeq
  | flashCrash g => exact g.step_batch nowNs baseSeq
  | latencyArbProxy g => exact g.step_batch nowNs baseSeq

/-- The most ids a generator takes until it has finished. -/
def idsLeft : Generator → ℕ
  | phantomLiquidity g => g.cyclesRemaining.toNat
  | quoteStuff g => g.burstsRemaining.toNat * (g.tradesPerStep.toNat * (1 + g.cancelsPerTrade.toNat * 1))
  | spoof g => g.cyclesRemaining.toNat
  | cancellationStorm g =>
    (g.warmupBatchesRemaining.toNat + g.stormBatchesRemaining.toNat) * (g.batch.toNat * 1)
  | momentumIgnition g => (if g.seeded then 0 else 2) + g.cyclesRemaining.toNat * 3
  | flashCrash g => g.burstsRemaining.toNat * 8
  | latencyArbProxy g =>
    (if g.seeded then 0 else 20) + g.burstsRemaining.toNat * (1 + g.burstSize.toNat * 1)

/-- What one turn takes off a product. -/
theorem mul_pred {b c : ℕ} (h : 0 < b) : c + (b - 1) * c = b * c := by
  obtain ⟨b, rfl⟩ : ∃ n, b = n + 1 := ⟨b - 1, by omega⟩
  rw [Nat.add_sub_cancel, Nat.succ_mul, Nat.add_comm]

end Generator

namespace PhantomLiquidityGenerator

theorem step_idsLeft (g : PhantomLiquidityGenerator) (nowNs baseSeq : UInt64) :
    (min g.cyclesPerStep g.cyclesRemaining).toNat * 1 +
      (g.step nowNs baseSeq).2.cyclesRemaining.toNat ≤ g.cyclesRemaining.toNat :=
  take_satSub32 _ _

end PhantomLiquidityGenerator

namespace SpoofGenerator

theorem step_idsLeft (g : SpoofGenerator) (nowNs baseSeq : UInt64) :
    (min g.cyclesPerStep g.cyclesRemaining).toNat * 1 +
      (g.step nowNs baseSeq).2.cyclesRemaining.toNat ≤ g.cyclesRemaining.toNat :=
  take_satSub32 _ _

end SpoofGenerator

namespace CancellationStormGenerator

/-- A step of an unfinished generator uses up one batch. -/
theorem step_batches (g : CancellationStormGenerator) (nowNs baseSeq : UInt64)
    (h : g.finished = false) :
    (g.step nowNs baseSeq).2.warmupBatchesRemaining.toNat +
      (g.step nowNs baseSeq).2.stormBatchesRemaining.toNat + 1 =
        g.warmupBatchesRemaining.toNat + g.stormBatchesRemaining.toNat := by
  show g.phase.1.warmupBatchesRemaining.toNat + g.phase.1.stormBatchesRemaining.toNat + 1 = _
  have h0 : (0 : UInt32).toNat = 0 := rfl
  simp only [finished, decide_eq_false_iff_not] at h
  simp only [phase]
  split_ifs with hw hs
  · have hpos := UInt32.lt_iff_toNat_lt.mp hw
    have hp := toNat_pred32 (a := g.warmupBatchesRemaining) (by omega)
    simp only [hp]
    omega
  · have hpos := UInt32.lt_iff_toNat_lt.mp hs
    have hp := toNat_pred32 (a := g.stormBatchesRemaining) (by omega)
    simp only [hp]
    omega
  · have hw0 := fun hne => hw (UInt32.lt_iff_toNat_lt.mpr (h0 ▸ pos_of_ne_zero32 hne))
    have hs0 := fun hne => hs (UInt32.lt_iff_toNat_lt.mpr (h0 ▸ pos_of_ne_zero32 hne))
    exact absurd ⟨not_not.mp hw0, not_not.mp hs0⟩ h

end CancellationStormGenerator

namespace MomentumIgnitionGenerator

theorem seedOnce_eq (g : MomentumIgnitionGenerator) (p : Pen) :
    (g.seedOnce p).1 = { g with seeded := true } := by
  rw [seedOnce]
  split_ifs with hs
  · rw [← hs]
    rfl
  · rfl

theorem body_eq (g : MomentumIgnitionGenerator) (p : Pen) :
    (g.body p).1 = (walk g.jumpTicks (min g.cyclesPerStep g.cyclesRemaining).toNat
      { g with seeded := true } (g.seedOnce p).2).1 := by
  rw [body, bind_fst, seedOnce_eq]
  rfl

theorem step_idsLeft (g : MomentumIgnitionGenerator) (nowNs baseSeq : UInt64) :
    (g.step nowNs baseSeq).2.seeded = true ∧
      (min g.cyclesPerStep g.cyclesRemaining).toNat +
        (g.step nowNs baseSeq).2.cyclesRemaining.toNat ≤ g.cyclesRemaining.toNat := by
  let p : Pen := ⟨g.rng, g.nextOid, baseSeq, nowNs, []⟩
  have hw := walk_fields g.jumpTicks (min g.cyclesPerStep g.cyclesRemaining).toNat
    { g with seeded := true } (g.seedOnce p).2 (by rw [toNat_min32]; exact min_le_right _ _)
  rw [← g.body_eq p] at hw
  exact ⟨hw.1, (Nat.add_comm _ _).trans_le hw.2⟩

end MomentumIgnitionGenerator

namespace FlashCrashGenerator

theorem seedOnce_bursts (g : FlashCrashGenerator) (p : Pen) :
    (g.seedOnce p).1.burstsRemaining = g.burstsRemaining := by
  rw [seedOnce]
  split_ifs
  · rfl
  · rfl

theorem burstOnce_bursts (g : FlashCrashGenerator) (nowNs : UInt64) (p : Pen)
    (h : 0 < g.burstsRemaining) :
    (g.burstOnce nowNs p).1.burstsRemaining = g.burstsRemaining - 1 := by
  have hone (q : Pen) : (g.oneBurst q).1.burstsRemaining = g.burstsRemaining := by
    rw [oneBurst, bind_fst, bind_fst, bind_pure_fst]
  rw [burstOnce, if_pos h, bind_fst, bind_fst]
  exact congrArg (· - 1) (hone _)

theorem reseed_bursts (g : FlashCrashGenerator) : g.reseed.burstsRemaining = g.burstsRemaining := by
  rw [reseed]
  split_ifs
  · rfl
  · rfl

theorem step_bursts (g : FlashCrashGenerator) (nowNs baseSeq : UInt64) (h : g.finished = false) :
    (g.step nowNs baseSeq).2.burstsRemaining = g.burstsRemaining - 1 := by
  let p : Pen := ⟨g.rng, g.nextOid, baseSeq, nowNs, []⟩
  have h0 : (0 : UInt32).toNat = 0 := rfl
  have hpos : 0 < (g.seedOnce p).1.burstsRemaining := by
    rw [seedOnce_bursts, UInt32.lt_iff_toNat_lt, h0]
    exact pos_of_ne_zero32 (by simpa [finished] using h)
  calc (g.step nowNs baseSeq).2.burstsRemaining
      = (burstOnce (g.seedOnce p).1 nowNs (g.seedOnce p).2).1.reseed.burstsRemaining := rfl
    _ = g.burstsRemaining - 1 := by rw [reseed_bursts, burstOnce_bursts _ _ _ hpos, seedOnce_bursts]

end FlashCrashGenerator

namespace LatencyArbProxyGenerator

theorem step_fields (g : LatencyArbProxyGenerator) (nowNs baseSeq : UInt64)
    (h : g.finished = false) :
    (g.step nowNs baseSeq).2.seeded = true ∧ (g.step nowNs baseSeq).2.burstSize = g.burstSize ∧
      (g.step nowNs baseSeq).2.burstsRemaining = g.burstsRemaining - 1 ∧
      (g.step nowNs baseSeq).2.nextDue = satAdd64 nowNs g.stepPeriodNs := by
  let p : Pen := ⟨g.rng, g.nextOid, baseSeq, nowNs, []⟩
  have hne : ¬ g.burstsRemaining = 0 := by simpa [finished] using h
  have hbody : (g.body nowNs p).1 = { g with
      seeded := true
      burstsRemaining := g.burstsRemaining - 1
      nextDue := satAdd64 nowNs g.stepPeriodNs } := by
    rw [body, bind_fst, seedOnce_eq, burstOnce, if_neg hne]
    exact bind_pure_fst _ _ _
  have hstep : (g.step nowNs baseSeq).2 = { (g.body nowNs p).1 with
      rng := (g.body nowNs p).2.rng
      nextOid := (g.body nowNs p).2.nextOid } := rfl
  rw [hstep, hbody]
  exact ⟨rfl, rfl, rfl, rfl⟩

end LatencyArbProxyGenerator

namespace Generator

/-- An unfinished generator pays for the ids of a step out of those it has left. -/
theorem step_idsLeft (g : Generator) (nowNs baseSeq : UInt64) (h : g.finished = false) :
    g.stepIds + (g.step nowNs baseSeq).2.idsLeft ≤ g.idsLeft := by
  cases g with
  | phantomLiquidity g => exact g.step_idsLeft nowNs baseSeq
  | spoof g => exact g.step_idsLeft nowNs baseSeq
  | quoteStuff g =>
    have hpos : 0 < g.burstsRemaining.toNat :=
      pos_of_ne_zero32 (by simpa [finished, QuoteStuffGenerator.finished] using h)
    have hsub : (g.step nowNs baseSeq).2.burstsRemaining.toNat = g.burstsRemaining.toNat - 1 :=
      satSub32_toNat g.burstsRemaining 1
    have hm := mul_pred (c := g.tradesPerStep.toNat * (1 + g.cancelsPerTrade.toNat * 1)) hpos
    rw [← hsub] at hm
    exact hm.le
  | cancellationStorm g =>
    have hb := g.step_batches nowNs baseSeq h
    have hbatch : (g.step nowNs baseSeq).2.batch = g.batch := g.phase_batch
    have hm := mul_pred (c := g.batch.toNat * 1)
      (show 0 < g.warmupBatchesRemaining.toNat + g.stormBatchesRemaining.toNat by omega)
    rw [← hb, Nat.add_sub_cancel, hb] at hm
    simp only [stepIds, step, idsLeft, hbatch]
    exact hm.le
  | momentumIgnition g =>
    obtain ⟨hs, hc⟩ := g.step_idsLeft nowNs baseSeq
    simp only [stepIds, step, idsLeft, hs, if_true]
    omega
  | flashCrash g =>
    have hpos : 0 < g.burstsRemaining.toNat :=
      pos_of_ne_zero32 (by simpa [finished, FlashCrashGenerator.finished] using h)
    have hb := g.step_bursts nowNs baseSeq h
    have hp := toNat_pred32 hpos
    simp only [stepIds, step, idsLeft, hb, hp]
    omega
  | latencyArbProxy g =>
    have hpos : 0 < g.burstsRemaining.toNat :=
      pos_of_ne_zero32 (by simpa [finished, LatencyArbProxyGenerator.finished] using h)
    obtain ⟨hs, hsize, hb, -⟩ := g.step_fields nowNs baseSeq h
    have hp := toNat_pred32 hpos
    have hm := mul_pred (c := 1 + g.burstSize.toNat * 1) hpos
    simp only [stepIds, step, idsLeft, hs, hsize, hb, hp, if_true]
    omega

/-- The sizes that the severity sets, within their ranges. -/
def Bounded : Generator → Prop
  | quoteStuff g => g.tradesPerStep.toNat ≤ 6 ∧ g.cancelsPerTrade.toNat ≤ 16
  | cancellationStorm g => g.batch = 128
  | latencyArbProxy g => g.burstSize.toNat ≤ 16
  | _ => True

theorem Bounded.step {g : Generator} (hb : g.Bounded) (nowNs baseSeq : UInt64)
    (h : g.finished = false) : (g.step nowNs baseSeq).2.Bounded := by
  cases g with
  | phantomLiquidity g => trivial
  | spoof g => trivial
  | momentumIgnition g => trivial
  | flashCrash g => trivial
  | quoteStuff g => exact hb
  | cancellationStorm g => exact g.phase_batch.trans hb
  | latencyArbProxy g => exact (congrArg UInt32.toNat (g.step_fields nowNs baseSeq h).2.1).trans_le hb

theorem Bounded.stepEvents_le {g : Generator} (hb : g.Bounded) : g.stepEvents ≤ 2 ^ 34 := by
  have hlt (a : UInt32) : a.toNat < 2 ^ 32 := a.toNat_lt
  cases g with
  | phantomLiquidity g =>
    have := hlt (min g.cyclesPerStep g.cyclesRemaining)
    simp only [stepEvents]
    omega
  | spoof g =>
    have := hlt (min g.cyclesPerStep g.cyclesRemaining)
    simp only [stepEvents]
    omega
  | momentumIgnition g =>
    have := hlt (min g.cyclesPerStep g.cyclesRemaining)
    simp only [stepEvents]
    omega
  | flashCrash g => norm_num [stepEvents]
  | quoteStuff g =>
    have hm : g.tradesPerStep.toNat * (1 + g.cancelsPerTrade.toNat * 1) ≤ 6 * 17 :=
      Nat.mul_le_mul hb.1 (by have := hb.2; omega)
    simp only [stepEvents]
    omega
  | cancellationStorm g =>
    have := hlt g.batch
    simp only [stepEvents]
    omega
  | latencyArbProxy g =>
    have := hlt g.burstSize
    simp only [stepEvents]
    omega

theorem Bounded.idsLeft_le {g : Generator} (hb : g.Bounded) : g.idsLeft ≤ 2 ^ 41 := by
  have hlt (a : UInt32) : a.toNat < 2 ^ 32 := a.toNat_lt
  cases g with
  | phantomLiquidity g =>
    have := hlt g.cyclesRemaining
    simp only [idsLeft]
    omega
  | spoof g =>
    have := hlt g.cyclesRemaining
    simp only [idsLeft]
    omega
  | momentumIgnition g =>
    have := hlt g.cyclesRemaining
    simp only [idsLeft]
    split_ifs <;> omega
  | flashCrash g =>
    have := hlt g.burstsRemaining
    simp only [idsLeft]
    omega
  | quoteStuff g =>
    have hm : g.tradesPerStep.toNat * (1 + g.cancelsPerTrade.toNat * 1) ≤ 6 * 17 :=
      Nat.mul_le_mul hb.1 (by have := hb.2; omega)
    have := hlt g.burstsRemaining
    calc g.burstsRemaining.toNat * (g.tradesPerStep.toNat * (1 + g.cancelsPerTrade.toNat * 1))
        ≤ 2 ^ 32 * (6 * 17) := Nat.mul_le_mul this.le hm
      _ ≤ 2 ^ 41 := by norm_num
  | cancellationStorm g =>
    have hw := hlt g.warmupBatchesRemaining
    have hs := hlt g.stormBatchesRemaining
    have hbatch : g.batch.toNat = 128 := congrArg UInt32.toNat hb
    simp only [idsLeft, hbatch]
    omega
  | latencyArbProxy g =>
    have := hlt g.burstsRemaining
    have hm : g.burstsRemaining.toNat * (1 + g.burstSize.toNat * 1) ≤ 2 ^ 32 * 17 :=
      Nat.mul_le_mul this.le (by have : g.burstSize.toNat ≤ 16 := hb; omega)
    simp only [idsLeft]
    split_ifs <;> omega

end Generator

namespace MomentumIgnitionGenerator

/-- The sum of the two touches, with all that the cycles left can add to it. -/
def touchRoom (g : MomentumIgnitionGenerator) (j : UInt64) : ℕ :=
  g.curBestBid.toNat + g.curBestAsk.toNat + g.cyclesRemaining.toNat * (2 * j.toNat)

theorem cycle_touches (g : MomentumIgnitionGenerator) (j : UInt64) (p : Pen) :
    (g.cycle j p).1.initialMid = g.initialMid ∧
      (g.cycle j p).1.curBestBid.toNat ≤ g.curBestBid.toNat + j.toNat ∧
      (g.cycle j p).1.curBestAsk.toNat ≤ g.curBestAsk.toNat + j.toNat := by
  rw [cycle]
  split_ifs
  · have hadd (a : UInt64) : (satAdd64 a j).toNat ≤ a.toNat + j.toNat := by
      rw [satAdd64_toNat]
      exact min_le_left _ _
    exact ⟨rfl, hadd _, hadd _⟩
  · have hsub (a : UInt64) : (satSub64 a j).toNat ≤ a.toNat + j.toNat := by
      rw [Flowlab.Core.satSub64_toNat]
      omega
    exact ⟨rfl, hsub _, hsub _⟩

theorem walk_touches (j : UInt64) (n : ℕ) (g : MomentumIgnitionGenerator) (p : Pen)
    (hn : n ≤ g.cyclesRemaining.toNat) :
    (walk j n g p).1.initialMid = g.initialMid ∧ (walk j n g p).1.touchRoom j ≤ g.touchRoom j := by
  induction n generalizing g p with
  | zero => exact ⟨rfl, le_rfl⟩
  | succ n ih =>
    rw [walk]
    split_ifs
    · have hz : touchRoom { g with cyclesRemaining := 0 } j =
          g.curBestBid.toNat + g.curBestAsk.toNat + 0 * (2 * j.toNat) := rfl
      refine ⟨rfl, ?_⟩
      show touchRoom { g with cyclesRemaining := 0 } j ≤ _
      rw [hz, touchRoom]
      omega
    · obtain ⟨hmid, hbid, hask⟩ := g.cycle_touches j p
      have hsub : (satSub32 (g.cycle j p).1.cyclesRemaining 1).toNat = g.cyclesRemaining.toNat - 1 := by
        rw [satSub32_toNat, (g.cycle_fields j p).2]
        rfl
      obtain ⟨hm, hroom⟩ := ih
        { (g.cycle j p).1 with cyclesRemaining := satSub32 (g.cycle j p).1.cyclesRemaining 1 }
        (Write.wait 50000 (g.cycle j p).2).2 (by rw [hsub]; omega)
      have hpred := Generator.mul_pred (c := 2 * j.toNat) (show 0 < g.cyclesRemaining.toNat by omega)
      refine ⟨hm.trans hmid, hroom.trans ?_⟩
      simp only [touchRoom, hsub]
      omega

theorem step_touches (g : MomentumIgnitionGenerator) (nowNs baseSeq : UInt64) :
    (g.step nowNs baseSeq).2.initialMid = g.initialMid ∧
      (g.step nowNs baseSeq).2.touchRoom g.jumpTicks ≤ g.touchRoom g.jumpTicks := by
  let p : Pen := ⟨g.rng, g.nextOid, baseSeq, nowNs, []⟩
  have hw := walk_touches g.jumpTicks (min g.cyclesPerStep g.cyclesRemaining).toNat
    { g with seeded := true } (g.seedOnce p).2 (by rw [toNat_min32]; exact min_le_right _ _)
  rw [← g.body_eq p] at hw
  exact hw

theorem new_touchRoom (seed : UInt64) (severity : Fp) {basePrice : UInt64}
    (h : basePrice.toNat < 2 ^ 62) (up : Bool) :
    (new seed severity basePrice up).touchRoom (new seed severity basePrice up).jumpTicks < 2 ^ 64 := by
  have h1 : (1 : UInt64).toNat = 1 := rfl
  have h4 : (4 : UInt32).toNat = 4 := rfl
  have h40 : (40 : UInt32).toNat = 40 := rfl
  have hten : (10000 : UInt64).toNat = 10000 := rfl
  have hbps : (lerp severity (.fin 8) (.fin 40)).round.toU32.toNat ≤ 40 :=
    lerp_round_le severity 8 40 (by norm_num) (by norm_num)
  have hbid : (satSub64 basePrice 1).toNat ≤ basePrice.toNat := by
    rw [Flowlab.Core.satSub64_toNat]
    omega
  have hask := satAdd64_toNat basePrice 1
  have hcycles : (max ((lerp severity (.fin 8) (.fin 40)).round.toU32 * 4) 40).toNat ≤ 160 := by
    rw [toNat_max32, UInt32.toNat_mul, h4, h40]
    omega
  have hjump : (max (basePrice / 10000) 1).toNat ≤ 2 ^ 49 := by
    rw [toNat_max64, UInt64.toNat_div, h1, hten]
    omega
  have hmul : (max ((lerp severity (.fin 8) (.fin 40)).round.toU32 * 4) 40).toNat *
      (2 * (max (basePrice / 10000) 1).toNat) ≤ 160 * (2 * 2 ^ 49) :=
    Nat.mul_le_mul hcycles (by omega)
  simp only [touchRoom, jumpTicks, new]
  omega

end MomentumIgnitionGenerator

/-- The two touches of a momentum generator can be summed in 64 bits in every cycle left. -/
def Generator.TouchFits : Generator → Prop
  | momentumIgnition g => g.touchRoom g.jumpTicks < 2 ^ 64
  | _ => True

theorem Generator.TouchFits.step {g : Generator} (h : g.TouchFits) (nowNs baseSeq : UInt64) :
    (g.step nowNs baseSeq).2.TouchFits := by
  cases g with
  | momentumIgnition g =>
    obtain ⟨hmid, hle⟩ := g.step_touches nowNs baseSeq
    have hj : (g.step nowNs baseSeq).2.jumpTicks = g.jumpTicks := by
      rw [MomentumIgnitionGenerator.jumpTicks, hmid]
      rfl
    show (g.step nowNs baseSeq).2.touchRoom (g.step nowNs baseSeq).2.jumpTicks < 2 ^ 64
    rw [hj]
    exact hle.trans_lt h
  | _ => trivial

end Flowlab.Chaos
