import Flowlab.Chaos.CrashLoop

namespace Flowlab.Chaos

open Std Framework Rounding
open Flowlab.Core (Event EventType Side OrderMeta SequencedEvent satSub64_toNat)

namespace FlashCrashDetector

/-- Between two steps: what the generator writes next finds the book it needs, or it writes no more. -/
inductive Ready (base : UInt64) (d : FlashCrashDetector) (g : FlashCrashGenerator) : Prop
  | burst (room : ℕ) (fresh : g.Fresh) (price : g.basePrice = base) (pos : 0 < g.nextOid.toNat)
      (ids : g.nextOid.toNat + 8 * g.burstsRemaining.toNat < 2 ^ 64)
      (fits : room + 8400 * g.burstsRemaining.toNat < 2 ^ 64)
      (rested : Rested base room g.nextOid d)
  | finished (seeded : g.seeded = true) (bursts : ¬ 0 < g.burstsRemaining)

variable {base : UInt64} {next : FlashCrashDetector → SequencedEvent → FlashCrashDetector}

theorem Ready.step (hbase : Clear base) (hnext : ∀ d ev, SameCaches (d.entered ev) (next d ev))
    {d : FlashCrashDetector} {g : FlashCrashGenerator} (h : Ready base d g) (nowNs baseSeq : UInt64) :
    Machine.Along (fun d ev => ∃ a, Steady base a d ev) next d (g.step nowNs baseSeq).1 ∧
      Ready base ((g.step nowNs baseSeq).1.foldl next d) (g.step nowNs baseSeq).2 := by
  cases h with
  | burst room fresh price pos ids fits rested =>
    have hpos : 0 < g.burstsRemaining.toNat := UInt32.lt_iff_toNat_lt.mp fresh.bursts
    obtain ⟨halong, hrested⟩ := rested.batch hbase hnext pos (by omega) (by omega) baseSeq nowNs
      (FlashCrashGenerator.cutFor_le _)
    obtain ⟨hprice, hoid, hbursts, hmore, hover⟩ := FlashCrashGenerator.step_next fresh nowNs baseSeq
    have hid : (after g.nextOid 8).toNat = g.nextOid.toNat + 8 := after_toNat (by omega)
    have hleft : (g.burstsRemaining - 1).toNat = g.burstsRemaining.toNat - 1 :=
      UInt32.toNat_sub_of_le _ _ (UInt32.le_iff_toNat_le.mpr hpos)
    rw [FlashCrashGenerator.step_eq fresh, price]
    refine ⟨halong, ?_⟩
    by_cases hagain : 0 < g.burstsRemaining - 1
    · refine .burst (room + 3200) (hmore hagain) (hprice.trans price) ?_ ?_ ?_ ?_
      · rw [hoid, hid]
        omega
      · rw [hoid, hid, hbursts, hleft]
        omega
      · rw [hbursts, hleft]
        omega
      · rw [hoid]
        exact hrested
    · exact .finished (hover hagain) (by rw [hbursts]; exact hagain)
  | finished seeded bursts =>
    obtain ⟨hnone, hseeded, hbursts⟩ := FlashCrashGenerator.step_done seeded bursts nowNs baseSeq
    rw [hnone]
    exact ⟨trivial, .finished hseeded hbursts⟩

theorem Ready.drive (hbase : Clear base) (hnext : ∀ d ev, SameCaches (d.entered ev) (next d ev))
    {d : FlashCrashDetector} {g : FlashCrashGenerator} (h : Ready base d g)
    (calls : List (UInt64 × UInt64)) :
    Machine.Along (fun d ev => ∃ a, Steady base a d ev) next d
      (drive FlashCrashGenerator.step g calls).1 := by
  induction calls generalizing d g with
  | nil => trivial
  | cons call calls ih =>
    obtain ⟨halong, hready⟩ := h.step hbase hnext call.1 call.2
    rw [Chaos.drive, Machine.along_append]
    exact ⟨halong, ih hready⟩

/-- A new generator before the detector of the default chain. -/
theorem ready_itch (seed : UInt64) (severity : Fp) (base : UInt64) {bursts : UInt32}
    (hbursts : 0 < bursts) :
    Ready base ChaosChain.defaultItch.crash (.new seed severity base true bursts) := by
  have hlt := bursts.toNat_lt
  have hoid : (4000000 : UInt64).toNat = 4000000 := rfl
  refine .burst 0 ⟨rfl, rfl, rfl, hbursts⟩ rfl ?_ ?_ ?_
    ⟨none, none, ∅, holds_itch base, le_rfl, fun _ _ => ExtTreeMap.getElem?_empty⟩
  · show 0 < (4000000 : UInt64).toNat
    omega
  · show (4000000 : UInt64).toNat + 8 * bursts.toNat < 2 ^ 64
    omega
  · show 0 + 8400 * bursts.toNat < 2 ^ 64
    omega

/-! From `2 ^ 63` the second event is one too many. -/

/-- Of an add before there is a mid. -/
theorem cachedBest_add {d : FlashCrashDetector} (h : d.midprice = none) (s : Side)
    (seq ts price qty : UInt64) {oid : UInt64} (hoid : oid ≠ 0) (r : Side) :
    (d.entered (Chaos.mk seq ts .orderAdd s price qty oid)).cachedBest r =
      if r = s then some (improved s price (d.cachedBest s)) else d.cachedBest r := by
  let ev := Chaos.mk seq ts .orderAdd s price qty oid
  have hadd : d.entered ev = (d.withBook { d.toMiniBook with
      orderTracker := ⟨d.orderTracker.orders.insert oid ⟨price, qty, s.toU8⟩⟩ }).addQty s.toU8 price
        qty := by
    rw [entered, snapBefore_none h]
    simp only [mutate, ev, OrderTracker.onAdd_mk hoid]
    rfl
  rw [hadd, (addQty_spec _ s price qty).1 r]
  simp only [withBook_cachedBest]

theorem midFits_eq (d : FlashCrashDetector) : d.midFits =
    match d.cachedBest .bid, d.cachedBest .ask with
    | some bb, some ba => decide (bb ≤ ba → ba.toNat + bb.toNat < 2 ^ 64)
    | _, _ => true := rfl

/-- The near bid and the near ask of a price from `2 ^ 63` sum up to too much. -/
theorem near_overflows {base : UInt64} (hhigh : 2 ^ 63 ≤ base.toNat) :
    ¬ (rung base .bid true ≤ rung base .ask true →
      (rung base .ask true).toNat + (rung base .bid true).toNat < 2 ^ 64) := by
  have hlt := base.toNat_lt
  have h1 : (1 : UInt64).toNat = 1 := rfl
  have hbid := bid_toNat base true
  have hask : (rung base .ask true).toNat = _ := satAdd64_toNat base 1
  rw [if_pos rfl] at hbid
  rw [h1] at hask
  rw [UInt64.le_iff_toNat_le]
  omega

theorem tryRun_high (gate : UInt64 → UInt64 → Bool) {base : UInt64} (hhigh : 2 ^ 63 ≤ base.toNat)
    {oid : UInt64} (hpos : 0 < oid.toNat) (hlast : oid.toNat + 8 < 2 ^ 64)
    (seq nowNs cut : UInt64) (rest : List SequencedEvent) :
    Machine.tryRun (processChecked gate) ChaosChain.defaultItch.crash
      (batch base oid seq nowNs cut ++ rest) = none := by
  let d₀ := ChaosChain.defaultItch.crash
  let first := Chaos.mk seq nowNs .orderAdd .bid (rung base .bid true) 5000 oid
  let second := Chaos.mk (after seq 1) nowNs .orderAdd .ask (rung base .ask true) 3000 (after oid 1)
  let d₁ := (d₀.processWith gate first).1
  have hid : (after oid 1).toNat = oid.toNat + 1 := after_toNat (by omega)
  have hsame := sameCaches_processWith gate d₀ first
  have hbest (r : Side) : d₁.cachedBest r = if r = .bid then some (rung base .bid true) else none := by
    rw [hsame.cachedBest, cachedBest_add (d := d₀) rfl .bid seq nowNs _ _ (oid_ne_zero hpos)]
    cases r <;> rfl
  have hmid : d₁.midprice = none := by
    have hba : d₁.cachedBa = none := hbest .ask
    rw [midprice, hba]
    cases d₁.cachedBb <;> rfl
  have hsecond : (d₁.entered second).midFits = false := by
    have hnow := cachedBest_add hmid .ask (after seq 1) nowNs (rung base .ask true) 3000
      (oid_ne_zero (c := after oid 1) (by omega))
    rw [midFits_eq, hnow, hnow, hbest, hbest]
    exact decide_eq_false (near_overflows hhigh)
  have hfirst : d₀.processChecked gate first = some (d₀.processWith gate first) := by
    have hfits : (d₀.entered first).midFits = true := by
      rw [midFits_eq, ← hsame.cachedBest .bid, ← hsame.cachedBest .ask, hbest, hbest]
      rfl
    rw [processChecked_eq gate d₀ (t := .orderAdd) rfl (by simp), if_pos ⟨rfl, hfits⟩]
  have hpanic : d₁.processChecked gate second = none := by
    rw [processChecked_eq gate d₁ (t := .orderAdd) rfl (by simp), hsecond]
    exact if_neg fun hfits => absurd hfits.2 Bool.false_ne_true
  have hhead : ∃ tail, batch base oid seq nowNs cut ++ rest = first :: second :: tail := ⟨_, rfl⟩
  obtain ⟨tail, htail⟩ := hhead
  rw [htail, Machine.tryRun, hfirst, Option.bind_eq_bind, Option.bind_some, Machine.tryRun, hpanic]
  rfl

theorem calm_itch (base : UInt64) : Calm base ChaosChain.defaultItch.crash := by
  refine ⟨tuned_itch, rfl, fun j => .inl ?_⟩
  have hslots : (Vector.replicate snapCap (default : TopSnapshot)).getD j default = default := by
    rw [Vector.getD, Vector.toArray_replicate, Array.getD_eq_getD_getElem?, Array.getElem?_replicate]
    split_ifs <;> rfl
  exact congrArg TopSnapshot.mid hslots

/-! The stream of a generator. -/

/-- The detector of the default chain, built with overflow checks, takes the events in and raises a
flag. -/
def Raises (evs : List SequencedEvent) : Prop :=
  ∃ r, Machine.tryRun (processChecked itchGate) ChaosChain.defaultItch.crash evs = some r ∧ Flags r.2

/-- Built without, where a sum that does not fit wraps. -/
def RaisesWrapping (evs : List SequencedEvent) : Prop :=
  Flags (Machine.run (processWith itchGate) ChaosChain.defaultItch.crash evs).2

/-- The calls of a new downward generator: what it writes, and what becomes of it. -/
def downRun (seed : UInt64) (severity : Fp) (base : UInt64) (bursts : UInt32)
    (calls : List (UInt64 × UInt64)) : List SequencedEvent × FlashCrashGenerator :=
  drive FlashCrashGenerator.step (.new seed severity base true bursts) calls

section

variable (seed : UInt64) (severity : Fp) {base : UInt64} {bursts : UInt32} (hbursts : 0 < bursts)

include hbursts

/-- The stream starts with the batch of the first step. -/
theorem downRun_first (base : UInt64) (call : UInt64 × UInt64) (calls : List (UInt64 × UInt64)) :
    ∃ cut rest, cut.toNat ≤ 2900 ∧ (downRun seed severity base bursts (call :: calls)).1 =
      batch base 4000000 call.2 call.1 cut ++ rest := by
  let g := FlashCrashGenerator.new seed severity base true bursts
  have hfresh : g.Fresh := ⟨rfl, rfl, rfl, hbursts⟩
  refine ⟨g.cut, (drive FlashCrashGenerator.step (g.step call.1 call.2).2 calls).1,
    FlashCrashGenerator.cutFor_le _, ?_⟩
  rw [downRun, drive, FlashCrashGenerator.step_eq hfresh]
  rfl

theorem downRun_along (hbase : Clear base) (calls : List (UInt64 × UInt64)) :
    Machine.Along (fun d ev => ∃ a, Steady base a d ev) (fun d ev => (d.processWith itchGate ev).1)
      ChaosChain.defaultItch.crash (downRun seed severity base bursts calls).1 :=
  (ready_itch seed severity base hbursts).drive hbase (sameCaches_processWith itchGate) calls

/-- As long as the sums fit, the builds agree. -/
theorem raises_iff_wrapping (hbase : Clear base) (calls : List (UInt64 × UInt64)) :
    Raises (downRun seed severity base bursts calls).1 ↔
      RaisesWrapping (downRun seed severity base bursts calls).1 := by
  have halong := downRun_along seed severity hbursts hbase calls
  have hrun := Machine.tryRun_eq (halong.imp fun _ _ hev =>
    hev.elim fun _ hsteady => hsteady.checked hbase itchGate)
  rw [Raises, hrun, RaisesWrapping]
  constructor
  · rintro ⟨r, hr, hflags⟩
    rw [Option.some.inj hr]
    exact hflags
  · intro hflags
    exact ⟨_, rfl, hflags⟩

theorem wrapping_of_low (hbase : Clear base) (hlow : base.toNat ≤ 100000) {call : UInt64 × UInt64}
    (calls : List (UInt64 × UInt64)) (hseq : call.2.toNat + 9 < 2 ^ 64) :
    RaisesWrapping (downRun seed severity base bursts (call :: calls)).1 := by
  obtain ⟨cut, rest, hcut, hstream⟩ := downRun_first seed severity hbursts base call calls
  have hoid : (4000000 : UInt64).toNat = 4000000 := rfl
  have hpos : 0 < (4000000 : UInt64).toNat := by omega
  obtain ⟨flag, hflag, hkind⟩ := first_burst_flags hbase hlow hpos (by omega) hseq call.1 hcut
  rw [RaisesWrapping, hstream, Machine.run_append]
  exact ⟨flag, List.mem_append_left _ hflag, hkind⟩

theorem not_wrapping_of_high (hbase : Clear base) (hhigh : 100000 < base.toNat)
    (calls : List (UInt64 × UInt64)) :
    ¬ RaisesWrapping (downRun seed severity base bursts calls).1 := by
  rintro ⟨flag, hflag, -⟩
  have hnone := (calm_itch base).run hbase hhigh itchGate
    (downRun_along seed severity hbursts hbase calls) _ hflag
  cases hnone

theorem not_raises_of_overflow (hhigh : 2 ^ 63 ≤ base.toNat) (call : UInt64 × UInt64)
    (calls : List (UInt64 × UInt64)) :
    ¬ Raises (downRun seed severity base bursts (call :: calls)).1 := by
  obtain ⟨cut, rest, -, hstream⟩ := downRun_first seed severity hbursts base call calls
  have hoid : (4000000 : UInt64).toNat = 4000000 := rfl
  rintro ⟨r, hr, -⟩
  rw [hstream, tryRun_high itchGate hhigh (by omega) (by omega)] at hr
  cases hr

end

/-- Stepped to completion, a downward generator makes the default chain's detector flag exactly when
its base price is at most 100000: the fall is always 100 ticks, and that is less than ten basis points of
more. Where a sum does not fit, the detector panics. -/
theorem crash_flagged_iff (seed : UInt64) (severity : Fp) {basePrice : UInt64} {bursts : UInt32}
    {calls : List (UInt64 × UInt64)} (hbase : 1000 ≤ basePrice) (hbursts : 1 ≤ bursts)
    (hseq : ∀ call ∈ calls, call.2.toNat + 9 < 2 ^ 64)
    (hdone : (downRun seed severity basePrice bursts calls).2.finished = true) :
    (Raises (downRun seed severity basePrice bursts calls).1 ↔ basePrice ≤ 100000) ∧
      (basePrice.toNat < 2 ^ 63 →
        (RaisesWrapping (downRun seed severity basePrice bursts calls).1 ↔ basePrice ≤ 100000)) := by
  have hlo : 1000 ≤ basePrice.toNat := UInt64.le_iff_toNat_le.mp hbase
  have hpos : 0 < bursts := UInt32.lt_iff_toNat_lt.mpr (UInt32.le_iff_toNat_le.mp hbursts)
  have hle : basePrice ≤ 100000 ↔ basePrice.toNat ≤ 100000 := UInt64.le_iff_toNat_le
  cases calls with
  | nil =>
    have hzero : bursts = 0 := of_decide_eq_true hdone
    rw [hzero] at hbursts
    exact absurd hbursts (by decide)
  | cons call calls =>
    have hfirst := hseq call List.mem_cons_self
    have hwrapping (hhi : basePrice.toNat < 2 ^ 63) :
        RaisesWrapping (downRun seed severity basePrice bursts (call :: calls)).1 ↔
          basePrice ≤ 100000 := by
      rw [hle]
      constructor
      · intro hraises
        by_contra hhigh
        exact not_wrapping_of_high seed severity hpos ⟨hlo, hhi⟩ (by omega) _ hraises
      · intro hlow
        exact wrapping_of_low seed severity hpos ⟨hlo, hhi⟩ hlow calls hfirst
    refine ⟨?_, hwrapping⟩
    by_cases hhi : basePrice.toNat < 2 ^ 63
    · rw [raises_iff_wrapping seed severity hpos ⟨hlo, hhi⟩]
      exact hwrapping hhi
    · rw [hle]
      constructor
      · intro hraises
        exact absurd hraises (not_raises_of_overflow seed severity hpos (by omega) call calls)
      · intro hlow
        omega

/-- One burst at 100000. -/
theorem crash_flagged_iff_edge :
    Raises (downRun 7 (.fin (1 / 2)) 100000 1 [(0, 1)]).1 ∧
      RaisesWrapping (downRun 7 (.fin (1 / 2)) 100000 1 [(0, 1)]).1 := by
  have hdone : (downRun 7 (.fin (1 / 2)) 100000 1 [(0, 1)]).2.finished = true := by decide +kernel
  have hseq : ∀ call ∈ [((0, 1) : UInt64 × UInt64)], call.2.toNat + 9 < 2 ^ 64 := by
    intro call hcall
    rw [List.mem_singleton.mp hcall]
    show 1 + 9 < 2 ^ 64
    omega
  have hlow : (100000 : UInt64) ≤ 100000 := UInt64.le_refl _
  have hfits : (100000 : UInt64).toNat < 2 ^ 63 := by
    show 100000 < 2 ^ 63
    omega
  have h := crash_flagged_iff 7 (.fin (1 / 2)) (by decide) (by decide) hseq hdone
  exact ⟨h.1.mpr hlow, (h.2 hfits).mpr hlow⟩

/-- One burst at 1000000, stepped to completion. -/
theorem crash_not_flagged :
    (downRun 7 (.fin (1 / 2)) 1000000 1 [(0, 1)]).2.finished = true ∧
      ¬ Raises (downRun 7 (.fin (1 / 2)) 1000000 1 [(0, 1)]).1 ∧
      ¬ RaisesWrapping (downRun 7 (.fin (1 / 2)) 1000000 1 [(0, 1)]).1 := by
  have hnat : (1000000 : UInt64).toNat = 1000000 := rfl
  have hbase : Clear 1000000 := ⟨by omega, by omega⟩
  have hbursts : (0 : UInt32) < 1 := by decide
  have hnot := not_wrapping_of_high 7 (.fin (1 / 2)) hbursts hbase (by omega) [(0, 1)]
  refine ⟨by decide +kernel, ?_, hnot⟩
  rw [raises_iff_wrapping 7 (.fin (1 / 2)) hbursts hbase]
  exact hnot

end FlashCrashDetector

end Flowlab.Chaos
