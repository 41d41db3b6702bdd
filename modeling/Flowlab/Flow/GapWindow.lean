import Flowlab.Flow.DailyLoss

namespace Flowlab.Flow

open Framework

/-- The clock reading of a call, where it makes one. -/
def BreakerOp.clock : BreakerOp → Option Int
  | .check now _ => some now
  | .recordGap now => some now
  | .snapshot now => some now
  | _ => none

/-- The gaps recorded since the last start of a day, none of them forgotten. -/
def noteGap (gaps : List Int) : BreakerOp → List Int
  | .recordGap now => gaps ++ [now]
  | .startOfDay => []
  | _ => gaps

def gapsToday (ops : List BreakerOp) : List Int := ops.foldl noteGap []

/-- A clock that never goes back. -/
def ClockOrdered (ops : List BreakerOp) : Prop := (ops.filterMap BreakerOp.clock).Pairwise (· ≤ ·)

/-- No reading of some calls lies after `now`. -/
def ReadBy (now : Int) (ops : List BreakerOp) : Prop := ∀ t ∈ ops.filterMap BreakerOp.clock, t ≤ now

theorem ReadBy.init {now : Int} {ops : List BreakerOp} {op : BreakerOp}
    (h : ReadBy now (ops ++ [op])) : ReadBy now ops := by
  intro t ht
  exact h t (by simp only [List.filterMap_append, List.mem_append, ht, true_or])

theorem ReadBy.last {now t : Int} {ops : List BreakerOp} {op : BreakerOp}
    (h : ReadBy now (ops ++ [op])) (ht : op.clock = some t) : t ≤ now :=
  h t (by simp [List.filterMap_append, ht])

theorem ClockOrdered.init {ops : List BreakerOp} {op : BreakerOp} (h : ClockOrdered (ops ++ [op])) :
    ClockOrdered ops := by
  rw [ClockOrdered, List.filterMap_append] at h
  exact (List.pairwise_append.mp h).1

/-- The last reading comes after all before it. -/
theorem ClockOrdered.readBy {ops : List BreakerOp} {op : BreakerOp} (h : ClockOrdered (ops ++ [op]))
    {now : Int} (hnow : op.clock = some now) : ReadBy now ops := by
  rw [ClockOrdered, List.filterMap_append] at h
  intro t ht
  exact (List.pairwise_append.mp h).2.2 t ht now (by simp [hnow])

theorem gapsToday_append (ops : List BreakerOp) (op : BreakerOp) :
    gapsToday (ops ++ [op]) = noteGap (gapsToday ops) op := by
  simp [gapsToday]

/-- Only readings of the clock are noted as gaps. -/
theorem ReadBy.gaps {now : Int} {ops : List BreakerOp} (h : ReadBy now ops) :
    ∀ t ∈ gapsToday ops, t ≤ now := by
  induction ops using List.reverseRecOn with
  | nil => simp [gapsToday]
  | append_singleton ops op ih =>
    rw [gapsToday_append]
    cases op with
    | recordGap t =>
      intro g hg
      rcases List.mem_append.mp hg with hg | hg
      · exact ih h.init g hg
      · rw [List.mem_singleton.mp hg]
        exact h.last rfl
    | startOfDay => simp [noteGap]
    | _ => exact ih h.init

/-- What a later cutoff keeps is not lost to an earlier one. -/
theorem filter_cutoff (gaps : List Int) {w now later : Int} (h : now ≤ later) :
    (gaps.filter fun t => decide (now - w ≤ t)).filter (fun t => decide (later - w ≤ t)) =
      gaps.filter fun t => decide (later - w ≤ t) := by
  rw [List.filter_filter]
  apply List.filter_congr
  intro t _
  by_cases ht : later - w ≤ t
  · have hnow : now - w ≤ t := by omega
    simp [ht, hnow]
  · simp [ht]

namespace CircuitBreaker

theorem latch_gapLog (b : CircuitBreaker) (r : HaltReason) : (b.latch r).1.gapLog = b.gapLog := by
  simp only [latch]
  cases b.reason <;> rfl

theorem check_gapLog (b : CircuitBreaker) (now : Int) (intent : Intent) :
    (b.check now intent).1.gapLog = b.gapLog := by
  have htoken : (b.takeToken now).1.gapLog = b.gapLog := by
    simp only [takeToken]
    cases b.cfg.maxOrdersPerSec <;> rfl
  cases hr : b.haltReason with
  | some r => rw [check_halted hr]
  | none =>
    simp only [check, hr]
    split_ifs <;> simp [latch_gapLog, htoken]

theorem recordGap_gapLog (b : CircuitBreaker) (now : Int) {k : UInt32}
    (hk : b.cfg.gapThreshold = some k) : (b.recordGap now).gapLog = b.recentGaps now ++ [now] := by
  simp only [recordGap, hk]
  split_ifs <;> simp [latch_gapLog]

/-- Which gaps each call leaves in the log. -/
def logAfter (b : CircuitBreaker) : BreakerOp → List Int
  | .recordGap now => b.recentGaps now ++ [now]
  | .snapshot now => b.recentGaps now
  | .startOfDay => []
  | _ => b.gapLog

theorem apply_gapLog (b : CircuitBreaker) (op : BreakerOp) {k : UInt32}
    (hk : b.cfg.gapThreshold = some k) : (b.apply op).gapLog = b.logAfter op := by
  cases op with
  | check now intent => exact check_gapLog b now intent
  | recordGap now => exact recordGap_gapLog b now hk
  | manualHalt => exact latch_gapLog b .manual
  | _ => rfl

/-- The pruned log and the whole history tell the same of every window that ends now or later. -/
theorem recentGaps_run {b : CircuitBreaker} {k : UInt32} (hk : b.cfg.gapThreshold = some k)
    (hlog : b.gapLog = []) {ops : List BreakerOp} (hops : ClockOrdered ops) {now : Int}
    (hnow : ReadBy now ops) :
    (b.run ops).recentGaps now =
      (gapsToday ops).filter fun t => decide (now - b.cfg.gapWindow ≤ t) := by
  induction ops using List.reverseRecOn generalizing now with
  | nil => simp [recentGaps, run, gapsToday, hlog]
  | append_singleton ops op ih =>
    have hold := ih hops.init hnow.init
    have hcfg : (b.run ops).cfg = b.cfg := run_cfg b ops
    have hrun : b.run (ops ++ [op]) = (b.run ops).apply op := by simp [run]
    have hlog' := (b.run ops).apply_gapLog op (hcfg ▸ hk)
    rw [hrun, recentGaps, hlog', apply_cfg, hcfg, gapsToday_append]
    rw [recentGaps, hcfg] at hold
    -- What an earlier reading pruned lies outside every window that ends at `now`.
    have hpruned {t : Int} (ht : op.clock = some t) :
        ((b.run ops).recentGaps t).filter (fun g => decide (now - b.cfg.gapWindow ≤ g)) =
          (gapsToday ops).filter fun g => decide (now - b.cfg.gapWindow ≤ g) := by
      rw [ih hops.init (hops.readBy ht), filter_cutoff _ (hnow.last ht)]
    cases op with
    | recordGap t => rw [logAfter, noteGap, List.filter_append, List.filter_append, hpruned rfl]
    | snapshot t => exact hpruned rfl
    | startOfDay => rfl
    | _ => exact hold

/-- The halt after a gap, from the log as it was. -/
theorem recordGap_isHalted {b : CircuitBreaker} (h : b.Agrees) (now : Int) {k : UInt32}
    (hk : b.cfg.gapThreshold = some k) :
    (b.recordGap now).isHalted = true ↔
      b.isHalted = true ∨ k.toNat ≤ (b.recentGaps now).length + 1 := by
  simp only [recordGap, hk, List.length_append, List.length_singleton]
  by_cases hlen : k.toNat ≤ (b.recentGaps now).length + 1
  · rw [if_pos hlen]
    simp only [hlen, or_true, iff_true]
    cases hr : b.reason with
    | none => simp [latch, isHalted]
    | some r =>
      have hhalt : b.isHalted = true := h.mpr (by simp [haltReason, hr])
      simpa [latch, hr, isHalted] using hhalt
  · rw [if_neg hlen]
    simp [hlen, isHalted]

/-- A breaker without its log. -/
def sansLog (b : CircuitBreaker) : CircuitBreaker := { b with gapLog := [] }

theorem latch_sansLog (b : CircuitBreaker) (r : HaltReason) :
    (b.latch r).1.sansLog = (b.sansLog.latch r).1 := by
  cases hr : b.reason <;> simp [latch, sansLog, hr]

theorem takeToken_sansLog (b : CircuitBreaker) (now : Int) :
    (b.takeToken now).1.sansLog = (b.sansLog.takeToken now).1 ∧
      (b.takeToken now).2 = (b.sansLog.takeToken now).2 := by
  simp only [takeToken, sansLog]
  cases b.cfg.maxOrdersPerSec <;> exact ⟨rfl, rfl⟩

theorem check_sansLog (b : CircuitBreaker) (now : Int) (intent : Intent) :
    (b.check now intent).1.sansLog = (b.sansLog.check now intent).1 := by
  obtain ⟨hstate, htoken⟩ := b.takeToken_sansLog now
  have hover : (b.takeToken now).1.overPosition intent =
      (b.sansLog.takeToken now).1.overPosition intent := by
    rw [← hstate]
    rfl
  have hfloor : (b.takeToken now).1.belowFloor = (b.sansLog.takeToken now).1.belowFloor := by
    rw [← hstate]
    rfl
  have hratio : overRatio (b.takeToken now).1.cfg (b.takeToken now).1.ordersSent
        (b.takeToken now).1.tradesDone =
      overRatio (b.sansLog.takeToken now).1.cfg (b.sansLog.takeToken now).1.ordersSent
        (b.sansLog.takeToken now).1.tradesDone := by
    rw [← hstate]
    rfl
  have hreason : b.sansLog.haltReason = b.haltReason := rfl
  cases hr : b.haltReason with
  | some r => rw [check_halted hr, check_halted (hreason.trans hr)]
  | none =>
    simp only [check, hreason, hr, htoken, hover, hfloor, hratio]
    split_ifs
    · rw [latch_sansLog, hstate]
    · rw [latch_sansLog, hstate]
    · rw [latch_sansLog, hstate]
    · rw [latch_sansLog, hstate]
    · rw [← hstate]
      rfl

/-- The log enters a gap's verdict through its recent part alone. -/
theorem recordGap_sansLog (b : CircuitBreaker) (now : Int) {k : UInt32}
    (hk : b.cfg.gapThreshold = some k) :
    (b.recordGap now).sansLog =
      if k.toNat ≤ (b.recentGaps now).length + 1 then (b.sansLog.latch .feedGap).1
      else b.sansLog := by
  simp only [recordGap, hk, List.length_append, List.length_singleton]
  split_ifs
  · rw [latch_sansLog]
    rfl
  · rfl

end CircuitBreaker

def BreakerOp.isSnapshot : BreakerOp → Bool
  | .snapshot _ => true
  | _ => false

/-- The calls but the telemetry snapshots. -/
def unwatched (ops : List BreakerOp) : List BreakerOp := ops.filter fun op => !op.isSnapshot

theorem gapsToday_unwatched (ops : List BreakerOp) : gapsToday (unwatched ops) = gapsToday ops := by
  induction ops using List.reverseRecOn with
  | nil => rfl
  | append_singleton ops op ih =>
    rw [unwatched, List.filter_append, gapsToday_append, ← ih]
    cases op <;> simp [BreakerOp.isSnapshot, gapsToday_append, noteGap, unwatched]

theorem ClockOrdered.unwatched {ops : List BreakerOp} (h : ClockOrdered ops) :
    ClockOrdered (unwatched ops) :=
  h.sublist ((List.filter_sublist (l := ops)).filterMap _)

theorem ReadBy.unwatched {now : Int} {ops : List BreakerOp} (h : ReadBy now ops) :
    ReadBy now (unwatched ops) :=
  fun t ht => h t (((List.filter_sublist (l := ops)).filterMap _).mem ht)

namespace CircuitBreaker

/-- With and without snapshots a run ends in the same state, the log apart. -/
theorem run_unwatched {b : CircuitBreaker} {k : UInt32} (hk : b.cfg.gapThreshold = some k)
    (hlog : b.gapLog = []) {ops : List BreakerOp} (hops : ClockOrdered ops) :
    (b.run (unwatched ops)).sansLog = (b.run ops).sansLog := by
  induction ops using List.reverseRecOn with
  | nil => rfl
  | append_singleton ops op ih =>
    have hold := ih hops.init
    have hk' (l : List BreakerOp) : (b.run l).cfg.gapThreshold = some k := by
      rw [run_cfg]
      exact hk
    have hrun (l : List BreakerOp) : b.run (l ++ [op]) = (b.run l).apply op := by simp [run]
    by_cases hs : op.isSnapshot = true
    · rw [unwatched, List.filter_append, show [op].filter (fun op => !op.isSnapshot) = [] by
        simp [hs], List.append_nil, hrun]
      cases op with
      | snapshot now => exact hold
      | _ => exact absurd hs (by simp [BreakerOp.isSnapshot])
    · rw [unwatched, List.filter_append, show [op].filter (fun op => !op.isSnapshot) = [op] by
        simp [hs], hrun, hrun]
      cases op with
      | check now intent =>
        simp only [apply, check_sansLog]
        rw [unwatched] at hold
        rw [hold]
      | recordFill fill => exact congrArg (fun c : CircuitBreaker => c.recordFill fill) hold
      | recordGap now =>
        have hread := hops.readBy rfl
        have hgaps : (b.run (unwatched ops)).recentGaps now = (b.run ops).recentGaps now := by
          rw [recentGaps_run hk hlog hops.init hread,
            recentGaps_run hk hlog hops.init.unwatched hread.unwatched, gapsToday_unwatched]
        refine (recordGap_sansLog _ now (hk' _)).trans
          (Eq.trans ?_ (recordGap_sansLog _ now (hk' ops)).symm)
        rw [unwatched] at hgaps hold
        rw [hgaps, hold]
      | manualHalt =>
        simp only [apply, manualHalt, latch_sansLog]
        rw [unwatched] at hold
        rw [hold]
      | snapshot now => exact absurd rfl hs
      | reset => exact congrArg reset hold
      | startOfDay =>
        have hday := congrArg startOfDay hold
        exact hday

end CircuitBreaker

/-- After a gap the breaker is halted exactly when it was before or the gaps of this day in the
window that ends now, this one included, reach the threshold; snapshots do not matter. -/
theorem halted_after_gap_iff {cfg : BreakerConfig} {k : UInt32} (hk : cfg.gapThreshold = some k)
    (start : Int) {ops : List BreakerOp} {now : Int} (hops : ClockOrdered (ops ++ [.recordGap now])) :
    ((((CircuitBreaker.new cfg start).run ops).recordGap now).isHalted = true ↔
      ((CircuitBreaker.new cfg start).run ops).isHalted = true ∨
        k.toNat ≤ (gapsToday ops ++ [now]).countP
          (fun t => decide (now - cfg.gapWindow ≤ t ∧ t ≤ now))) ∧
    (((CircuitBreaker.new cfg start).run (unwatched ops)).recordGap now).isHalted =
      (((CircuitBreaker.new cfg start).run ops).recordGap now).isHalted := by
  have hk' : (CircuitBreaker.new cfg start).cfg.gapThreshold = some k := hk
  have hread := hops.readBy rfl
  constructor
  · have hagrees := CircuitBreaker.agrees_run (b := CircuitBreaker.new cfg start)
      (by simp [CircuitBreaker.Agrees, CircuitBreaker.new, CircuitBreaker.isHalted,
        CircuitBreaker.haltReason]) ops
    have hin : (gapsToday ops).countP (fun t => decide (now - cfg.gapWindow ≤ t ∧ t ≤ now)) =
        (gapsToday ops).countP (fun t => decide (now - cfg.gapWindow ≤ t)) := by
      apply List.countP_congr
      intro t ht
      simp [hread.gaps t ht]
    have hself : [now].countP (fun t => decide (now - cfg.gapWindow ≤ t ∧ t ≤ now)) = 1 := by
      simp
    rw [CircuitBreaker.recordGap_isHalted hagrees now (by rw [CircuitBreaker.run_cfg]; exact hk),
      CircuitBreaker.recentGaps_run hk' rfl hops.init hread, List.countP_append, hin, hself,
      List.countP_eq_length_filter]
    rfl
  · have hrun := CircuitBreaker.run_unwatched hk' rfl hops
    rw [unwatched, List.filter_append] at hrun
    have happ (l : List BreakerOp) : (CircuitBreaker.new cfg start).run (l ++ [.recordGap now]) =
        ((CircuitBreaker.new cfg start).run l).recordGap now := by
      simp [CircuitBreaker.run, CircuitBreaker.apply]
    have hlast : [BreakerOp.recordGap now].filter (fun op => !op.isSnapshot) = [.recordGap now] := rfl
    rw [hlast, happ, happ] at hrun
    have hflag := congrArg CircuitBreaker.isHalted hrun
    exact hflag

/-- Two gaps within a window of 10 against a threshold of 2, with a snapshot and a reset between. -/
theorem halted_after_gap_iff_two :
    (((CircuitBreaker.new ⟨none, none, none, none, 0, some 2, 10⟩ 0).run
      [.recordGap 5, .snapshot 7, .reset]).recordGap 15).isHalted = true :=
  (halted_after_gap_iff rfl 0
    (by simp [ClockOrdered, BreakerOp.clock, List.filterMap_cons])).1.mpr (Or.inr (by decide))

end Flowlab.Flow
