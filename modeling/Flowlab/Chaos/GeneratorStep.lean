import Flowlab.Chaos.Generators

namespace Flowlab.Chaos

open Framework Rounding Writer
open Flowlab.Core (Event EventType Side SequencedEvent satSub64 satSub32 satSub32_toNat)

/-- The batch of a step, by the counters before it and the id counter after it: the ids of its adds
rise to the counter after it, its sequence numbers rise by at most `n`. -/
structure Batch (n k : ℕ) (oid seq : UInt64) (es : List SequencedEvent) (oid' : UInt64) : Prop where
  ids : oid.toNat + k < 2 ^ 64 →
    Rises oid.toNat (addIds es) oid'.toNat ∧ oid'.toNat ≤ oid.toNat + k
  seqs : seq.toNat + n < 2 ^ 64 → Rises seq.toNat (seqs es) (seq.toNat + n)

theorem Writes.batch {α : Type} {n k : ℕ} {m : Write α} (h : Writes n k m) (rng : DetRng)
    (oid seq ts : UInt64) :
    Batch n k oid seq (m ⟨rng, oid, seq, ts, []⟩).2.out (m ⟨rng, oid, seq, ts, []⟩).2.nextOid := by
  obtain ⟨es, hes, hids, hseqs⟩ := h ⟨rng, oid, seq, ts, []⟩
  rw [List.nil_append] at hes
  rw [hes]
  refine ⟨hids, ?_⟩
  intro hroom
  obtain ⟨hr, hle⟩ := hseqs hroom
  exact List.append_nil (seqs es) ▸ hr.append hle

/-- Numbers that start up to `d` later than asked. -/
theorem Batch.later {n k d : ℕ} {oid seq seq' oid' : UInt64} {es : List SequencedEvent}
    (h : Batch n k oid seq' es oid') (hle : seq.toNat ≤ seq'.toNat)
    (hd : seq'.toNat ≤ seq.toNat + d) : Batch (d + n) k oid seq es oid' := by
  refine ⟨h.ids, ?_⟩
  intro hroom
  have hr := h.seqs (by omega)
  have hlo : Rises seq.toNat [] seq'.toNat := hle
  have hhi : Rises (seq'.toNat + n) [] (seq.toNat + (d + n)) := by
    simp only [Rises]
    omega
  have hall := (hlo.append hr).append hhi
  rwa [List.nil_append, List.append_nil] at hall

theorem writes_range {n k : ℕ} {f : ℕ → Write PUnit} (hf : ∀ i, Writes n k (f i)) (c : ℕ) :
    Writes (c * n) (c * k) ((List.range c).forM f) := by
  have h := Appends.forM numbered_additive hf (List.range c)
  rwa [List.length_range] at h

theorem writes_addCancel (side : Side) (price qty gap : UInt64) :
    Writes 2 1 (addCancel side price qty gap) := by
  refine writes_mint .orderAdd side price qty (n := 1) (k := 0) ?_
  intro oid
  refine (quiet_wait _).then ?_
  intro _
  refine writes_push (by decide) side price qty oid (n := 0) ?_
  intro _
  exact (quiet_wait _).writes

namespace PhantomLiquidityGenerator

theorem writes_cycle (g : PhantomLiquidityGenerator) : Writes 2 1 g.cycle := by
  refine (quiet_boolP _).then ?_
  intro isBid
  refine (quiet_nextBelow _).then ?_
  intro off
  refine (quiet_nextBelow _).then ?_
  intro qty
  exact writes_addCancel _ _ _ _

theorem step_batch (g : PhantomLiquidityGenerator) (nowNs baseSeq : UInt64) :
    Batch ((min g.cyclesPerStep g.cyclesRemaining).toNat * 2)
      ((min g.cyclesPerStep g.cyclesRemaining).toNat * 1) g.nextOid baseSeq
      (g.step nowNs baseSeq).1 (g.step nowNs baseSeq).2.nextOid :=
  (writes_range (fun _ => g.writes_cycle) _).batch g.rng g.nextOid baseSeq nowNs

end PhantomLiquidityGenerator

namespace SpoofGenerator

theorem writes_cycle (g : SpoofGenerator) : Writes 2 1 g.cycle := by
  refine (quiet_boolP _).then ?_
  intro isBid
  refine (quiet_nextBelow _).then ?_
  intro off
  exact writes_addCancel _ _ _ _

theorem step_batch (g : SpoofGenerator) (nowNs baseSeq : UInt64) :
    Batch ((min g.cyclesPerStep g.cyclesRemaining).toNat * 2)
      ((min g.cyclesPerStep g.cyclesRemaining).toNat * 1) g.nextOid baseSeq
      (g.step nowNs baseSeq).1 (g.step nowNs baseSeq).2.nextOid :=
  (writes_range (fun _ => g.writes_cycle) _).batch g.rng g.nextOid baseSeq nowNs

end SpoofGenerator

namespace QuoteStuffGenerator

theorem writes_cancel (g : QuoteStuffGenerator) (dt : UInt64) (side : Side) :
    Writes 1 1 (g.cancel dt side) := by
  refine (quiet_nextBelow _).then ?_
  intro off
  refine writes_mint _ _ _ _ (n := 0) (k := 0) ?_
  intro oid
  exact (quiet_wait _).writes

theorem writes_trade (g : QuoteStuffGenerator) (dt : UInt64) (i : ℕ) :
    Writes (1 + g.cancelsPerTrade.toNat * 1) (1 + g.cancelsPerTrade.toNat * 1) (g.trade dt i) := by
  refine writes_mint _ _ _ _ ?_
  intro oid
  refine (quiet_wait _).then ?_
  intro _
  exact writes_range (fun _ => g.writes_cancel dt _) _

theorem step_batch (g : QuoteStuffGenerator) (nowNs baseSeq : UInt64) :
    Batch (g.tradesPerStep.toNat * (1 + g.cancelsPerTrade.toNat * 1))
      (g.tradesPerStep.toNat * (1 + g.cancelsPerTrade.toNat * 1)) g.nextOid baseSeq
      (g.step nowNs baseSeq).1 (g.step nowNs baseSeq).2.nextOid :=
  (writes_range (fun i => g.writes_trade _ i) _).batch g.rng g.nextOid baseSeq nowNs

end QuoteStuffGenerator

namespace CancellationStormGenerator

theorem writes_event (g : CancellationStormGenerator) (dt : UInt64) : Writes 1 1 (g.event dt) := by
  refine (quiet_boolP _).then ?_
  intro isBid
  refine quiet_nextU64.then ?_
  intro draw
  refine (quiet_nextBelow _).then ?_
  intro off
  refine (quiet_nextBelow _).then ?_
  intro qty
  refine writes_mint _ _ _ _ (n := 0) (k := 0) ?_
  intro oid
  exact (quiet_wait _).writes

theorem phase_batch (g : CancellationStormGenerator) : g.phase.1.batch = g.batch := by
  simp only [phase]
  split_ifs <;> rfl

theorem phase_nextOid (g : CancellationStormGenerator) : g.phase.1.nextOid = g.nextOid := by
  simp only [phase]
  split_ifs <;> rfl

/-- The batch that opens the storm skips 4096 numbers first. -/
theorem step_batch (g : CancellationStormGenerator) (nowNs baseSeq : UInt64) :
    Batch (4096 + g.batch.toNat * 1) (g.batch.toNat * 1) g.nextOid baseSeq
      (g.step nowNs baseSeq).1 (g.step nowNs baseSeq).2.nextOid := by
  have h : Batch (g.phase.1.batch.toNat * 1) (g.phase.1.batch.toNat * 1) g.phase.1.nextOid
      (if g.phase.2 then satAdd64 baseSeq 4096 else baseSeq) (g.step nowNs baseSeq).1
      (g.step nowNs baseSeq).2.nextOid :=
    (writes_range (fun _ => g.phase.1.writes_event _) _).batch g.phase.1.rng _ _ nowNs
  rw [phase_batch, phase_nextOid] at h
  have h4 : (4096 : UInt64).toNat = 4096 := rfl
  have hlt := baseSeq.toNat_lt
  have hs := satAdd64_toNat baseSeq 4096
  refine h.later ?_ ?_
  · split_ifs <;> omega
  · split_ifs <;> omega

end CancellationStormGenerator

namespace MomentumIgnitionGenerator

/-- An add, a trade at the touch and an add on the other side, with waits in between. -/
theorem writes_jump (side side' : Side) (price touch price' dt : UInt64)
    (g : MomentumIgnitionGenerator) : Writes 3 3 (do
      let oid ← Write.takeOid
      Write.push .orderAdd side price 500 oid
      Write.wait dt
      let oid ← Write.takeOid
      Write.push .trade side touch 500 oid
      Write.wait dt
      let oid ← Write.takeOid
      Write.push .orderAdd side' price' 500 oid
      pure g) := by
  refine writes_mint _ _ _ _ (n := 2) (k := 2) ?_
  intro _
  refine (quiet_wait _).then ?_
  intro _
  refine writes_mint _ _ _ _ (n := 1) (k := 1) ?_
  intro _
  refine (quiet_wait _).then ?_
  intro _
  refine writes_mint _ _ _ _ (n := 0) (k := 0) ?_
  intro _
  exact writes_pure _

theorem writes_cycleUp (g : MomentumIgnitionGenerator) (j : UInt64) : Writes 3 3 (g.cycleUp j) :=
  writes_jump .ask .bid _ g.curBestAsk _ 20000 _

theorem writes_cycleDown (g : MomentumIgnitionGenerator) (j : UInt64) :
    Writes 3 3 (g.cycleDown j) :=
  writes_jump .bid .ask _ g.curBestBid _ 20000 _

theorem writes_cycle (g : MomentumIgnitionGenerator) (j : UInt64) : Writes 3 3 (g.cycle j) := by
  rw [cycle]
  split_ifs
  · exact g.writes_cycleUp j
  · exact g.writes_cycleDown j

theorem writes_walk (j : UInt64) (n : ℕ) (g : MomentumIgnitionGenerator) :
    Writes (n * 3) (n * 3) (walk j n g) := by
  induction n generalizing g with
  | zero => exact writes_pure g
  | succ n ih =>
    rw [Nat.succ_mul, Nat.add_comm, walk]
    split_ifs
    · exact writes_pure _
    · refine writes_bind (g.writes_cycle j) ?_
      intro g
      refine (quiet_wait _).then ?_
      intro _
      exact ih _

theorem writes_body (g : MomentumIgnitionGenerator) :
    Writes (2 + (min g.cyclesPerStep g.cyclesRemaining).toNat * 3)
      ((if g.seeded then 0 else 2) + (min g.cyclesPerStep g.cyclesRemaining).toNat * 3) g.body := by
  rw [body, seedOnce]
  split_ifs with hs
  · have hw := writes_walk g.jumpTicks (min g.cyclesPerStep g.cyclesRemaining).toNat g
    exact hw.mono (by omega) (by omega)
  · have hw := writes_walk g.jumpTicks (min g.cyclesPerStep g.cyclesRemaining).toNat
      { g with seeded := true }
    intro p
    exact (writes_mint_two .bid .ask g.curBestBid g.curBestAsk 500 500 hw).mono (by omega) (by omega) p

theorem step_batch (g : MomentumIgnitionGenerator) (nowNs baseSeq : UInt64) :
    Batch (2 + (min g.cyclesPerStep g.cyclesRemaining).toNat * 3)
      ((if g.seeded then 0 else 2) + (min g.cyclesPerStep g.cyclesRemaining).toNat * 3) g.nextOid
      baseSeq (g.step nowNs baseSeq).1 (g.step nowNs baseSeq).2.nextOid :=
  g.writes_body.batch g.rng g.nextOid baseSeq nowNs

/-- A cycle moves the two touches and nothing else. -/
theorem cycle_fields (g : MomentumIgnitionGenerator) (j : UInt64) (p : Pen) :
    (g.cycle j p).1.seeded = g.seeded ∧ (g.cycle j p).1.cyclesRemaining = g.cyclesRemaining := by
  rw [cycle]
  split_ifs
  · exact ⟨rfl, rfl⟩
  · exact ⟨rfl, rfl⟩

/-- Every cycle of the walk uses one up, and leaving early uses them all up. -/
theorem walk_fields (j : UInt64) (n : ℕ) (g : MomentumIgnitionGenerator) (p : Pen)
    (hn : n ≤ g.cyclesRemaining.toNat) :
    (walk j n g p).1.seeded = g.seeded ∧
      (walk j n g p).1.cyclesRemaining.toNat + n ≤ g.cyclesRemaining.toNat := by
  induction n generalizing g p with
  | zero => exact ⟨rfl, le_rfl⟩
  | succ n ih =>
    rw [walk]
    split_ifs
    · exact ⟨rfl, (Nat.zero_add (n + 1)).trans_le hn⟩
    · obtain ⟨hseeded, hcycles⟩ := g.cycle_fields j p
      have hsub : (satSub32 (g.cycle j p).1.cyclesRemaining 1).toNat = g.cyclesRemaining.toNat - 1 := by
        rw [satSub32_toNat, hcycles]
        rfl
      obtain ⟨hs, hc⟩ := ih
        { (g.cycle j p).1 with cyclesRemaining := satSub32 (g.cycle j p).1.cyclesRemaining 1 }
        (Write.wait 50000 (g.cycle j p).2).2 (by rw [hsub]; omega)
      refine ⟨hs.trans hseeded, ?_⟩
      rw [hsub] at hc
      have hone : g.cyclesRemaining.toNat - 1 + 1 ≤ g.cyclesRemaining.toNat := by omega
      exact (Nat.succ_le_succ hc).trans hone

end MomentumIgnitionGenerator

namespace FlashCrashGenerator

theorem writes_seedDepth (g : FlashCrashGenerator) : Writes 4 4 g.seedDepth := by
  refine writes_mint _ _ _ _ (n := 3) (k := 3) ?_
  intro _
  refine writes_mint _ _ _ _ (n := 2) (k := 2) ?_
  intro _
  refine writes_mint _ _ _ _ (n := 1) (k := 1) ?_
  intro _
  refine writes_mint _ _ _ _ (n := 0) (k := 0) ?_
  intro _
  exact writes_pure _

theorem writes_cancelBid (resting : List Resting) : Writes 1 0 (cancelBid resting) := by
  rw [cancelBid]
  split
  · exact writes_pure _
  · refine writes_push (by decide) _ _ _ _ (n := 0) ?_
    intro _
    refine (quiet_wait _).then ?_
    intro _
    exact writes_pure _

theorem writes_cutAsk (wantDrop cancelled : UInt64) (resting : List Resting) :
    Writes 1 0 (cutAsk wantDrop cancelled resting) := by
  rw [cutAsk]
  split_ifs
  · split
    · exact writes_pure _
    · dsimp only
      split_ifs
      · refine writes_push (by decide) _ _ _ _ (n := 0) ?_
        intro _
        refine (quiet_wait _).then ?_
        intro _
        exact writes_pure _
      · exact writes_pure _
  · exact writes_pure _

theorem writes_trade (g : FlashCrashGenerator) : Writes 1 1 g.trade := by
  refine writes_mint _ _ _ _ (n := 0) (k := 0) ?_
  intro _
  exact (quiet_wait _).writes

theorem writes_oneBurst (g : FlashCrashGenerator) : Writes 6 4 g.oneBurst := by
  refine writes_bind (writes_cancelBid g.resting) (c := 5) (d := 4) ?_
  intro r
  refine writes_bind (writes_cutAsk g.wantDrop r.1 r.2) (c := 4) (d := 4) ?_
  intro resting
  refine writes_bind (writes_range (fun _ => g.writes_trade) 4) (c := 0) (d := 0) ?_
  intro _
  exact writes_pure _

theorem writes_body (g : FlashCrashGenerator) (nowNs : UInt64) : Writes 10 8 (g.body nowNs) := by
  have hseed : Writes 4 4 g.seedOnce := by
    rw [seedOnce]
    split_ifs
    · exact writes_pure _
    · exact g.writes_seedDepth
  refine writes_bind hseed (c := 6) (d := 4) ?_
  intro g
  have hburst : Writes 6 4 (g.burstOnce nowNs) := by
    rw [burstOnce]
    split_ifs
    · refine (quiet_setTs _).then ?_
      intro _
      refine writes_bind g.writes_oneBurst (c := 0) (d := 0) ?_
      intro g
      exact writes_pure _
    · exact writes_pure _
  refine writes_bind hburst (c := 0) (d := 0) ?_
  intro g
  exact writes_pure _

theorem step_batch (g : FlashCrashGenerator) (nowNs baseSeq : UInt64) :
    Batch 10 8 g.nextOid baseSeq (g.step nowNs baseSeq).1 (g.step nowNs baseSeq).2.nextOid :=
  (g.writes_body nowNs).batch g.rng g.nextOid baseSeq nowNs

end FlashCrashGenerator

namespace LatencyArbProxyGenerator

theorem writes_seedLevel (g : LatencyArbProxyGenerator) (i : ℕ) : Writes 2 2 (g.seedLevel i) := by
  intro p
  exact writes_mint_two _ _ _ _ _ _ (writes_pure (n := 0) (k := 0) ()) p

theorem writes_react (side : Side) (printPrice : UInt64) (i : ℕ) :
    Writes 1 1 (react side printPrice i) := by
  refine writes_mint _ _ _ _ (n := 0) (k := 0) ?_
  intro _
  exact (quiet_wait _).writes

theorem writes_burst (g : LatencyArbProxyGenerator) :
    Writes (1 + g.burstSize.toNat * 1) (1 + g.burstSize.toNat * 1) g.burst := by
  refine (quiet_boolP _).then ?_
  intro buyPrint
  refine writes_mint _ _ _ _ ?_
  intro _
  refine (quiet_wait _).then ?_
  intro _
  exact writes_range (writes_react _ _) _

theorem writes_seed (g : LatencyArbProxyGenerator) : Writes 20 20 g.seed := by
  refine writes_bind (writes_range g.writes_seedLevel 10) (c := 0) (d := 0) ?_
  intro _
  exact writes_pure _

theorem writes_burstOnce (g : LatencyArbProxyGenerator) (nowNs : UInt64) :
    Writes (1 + g.burstSize.toNat * 1) (1 + g.burstSize.toNat * 1) (g.burstOnce nowNs) := by
  rw [burstOnce]
  split_ifs
  · exact writes_pure _
  · refine writes_bind g.writes_burst (c := 0) (d := 0) ?_
    intro _
    exact writes_pure _

/-- Seeding only sets its mark. -/
theorem seedOnce_eq (g : LatencyArbProxyGenerator) (p : Pen) :
    (g.seedOnce p).1 = { g with seeded := true } := by
  rw [seedOnce]
  split_ifs with hs
  · rw [← hs]
    rfl
  · rw [seed]
    exact bind_pure_fst _ _ p

theorem writes_body (g : LatencyArbProxyGenerator) (nowNs : UInt64) :
    Writes (20 + (1 + g.burstSize.toNat * 1))
      ((if g.seeded then 0 else 20) + (1 + g.burstSize.toNat * 1)) (g.body nowNs) := by
  refine Appends.bind numbered_additive ?_ ?_
  · rw [seedOnce]
    split_ifs
    · exact writes_pure _
    · exact g.writes_seed
  · intro p
    rw [seedOnce_eq]
    exact writes_burstOnce { g with seeded := true } nowNs

theorem step_batch (g : LatencyArbProxyGenerator) (nowNs baseSeq : UInt64) :
    Batch (20 + (1 + g.burstSize.toNat * 1))
      ((if g.seeded then 0 else 20) + (1 + g.burstSize.toNat * 1)) g.nextOid baseSeq
      (g.step nowNs baseSeq).1 (g.step nowNs baseSeq).2.nextOid :=
  (g.writes_body nowNs).batch g.rng g.nextOid baseSeq nowNs

end LatencyArbProxyGenerator

end Flowlab.Chaos
