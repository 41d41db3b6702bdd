import Flowlab.Chaos.GeneratorLife
import Flowlab.Chaos.PhantomLiquidity
import Flowlab.Chaos.Spoof

namespace Flowlab.Chaos

open Std Framework Rounding Writer
open Flowlab.Core (Event EventType Side SequencedEvent satSub64 satSub64_toNat satSub32 satSub32_toNat)

/-- An add and the cancel of all of it, as a generator writes them. -/
structure Cycle where
  seq : UInt64
  addTs : UInt64
  cancelTs : UInt64
  side : Side
  price : UInt64
  qty : UInt64
  oid : UInt64

namespace Cycle

def add (c : Cycle) : SequencedEvent :=
  Chaos.mk c.seq c.addTs .orderAdd c.side c.price c.qty c.oid

def cancel (c : Cycle) : SequencedEvent :=
  Chaos.mk (c.seq + 1) c.cancelTs .orderCancel c.side c.price c.qty c.oid

def events (c : Cycle) : List SequencedEvent := [c.add, c.cancel]

end Cycle

/-- Some calls of `step`, at times and from sequence numbers that the caller chooses. -/
def drive {G : Type} (step : G → UInt64 → UInt64 → List SequencedEvent × G) :
    G → List (UInt64 × UInt64) → List SequencedEvent × G
  | g, [] => ([], g)
  | g, call :: calls =>
    let r := step g call.1 call.2
    let rest := drive step r.2 calls
    (r.1 ++ rest.1, rest.2)

/-- The program appends the events of one cycle. -/
def WritesCycle (P : Cycle → Prop) (m : Write PUnit) : Prop :=
  ∀ p, ∃ c, P c ∧ (m p).2.out = p.out ++ c.events

theorem writesCycle_addCancel (side : Side) (price qty gap : UInt64) (p : Pen) :
    ∃ c : Cycle, c.qty = qty ∧ (addCancel side price qty gap p).2.out = p.out ++ c.events :=
  ⟨⟨p.seq, p.ts, satAdd64 p.ts (gap / 2), side, price, qty, p.nextOid⟩, rfl,
    List.append_assoc p.out [_] [_]⟩

theorem forM_cycles {P : Cycle → Prop} {f : ℕ → Write PUnit} (hf : ∀ i, WritesCycle P (f i))
    (l : List ℕ) (p : Pen) :
    ∃ cs : List Cycle, cs.length = l.length ∧ (∀ c ∈ cs, P c) ∧
      (l.forM f p).2.out = p.out ++ cs.flatMap Cycle.events := by
  induction l generalizing p with
  | nil => exact ⟨[], rfl, by simp, (List.append_nil _).symm⟩
  | cons i l ih =>
    obtain ⟨c, hc, hout⟩ := hf i p
    obtain ⟨cs, hlen, hcs, hrest⟩ := ih (f i p).2
    refine ⟨c :: cs, congrArg (· + 1) hlen, ?_, ?_⟩
    · intro c' hc'
      rcases List.mem_cons.mp hc' with rfl | hc'
      · exact hc
      · exact hcs c' hc'
    · rw [List.flatMap_cons, ← List.append_assoc, ← hout]
      exact hrest

/-- What every step of a generator does: it writes cycles, and takes them off those that remain. -/
def Emits {G : Type} (step : G → UInt64 → UInt64 → List SequencedEvent × G) (remaining : G → ℕ)
    (P : Cycle → Prop) (g : G) (nowNs baseSeq : UInt64) : Prop :=
  ∃ cs : List Cycle, (step g nowNs baseSeq).1 = cs.flatMap Cycle.events ∧ (∀ c ∈ cs, P c) ∧
    cs.length + remaining (step g nowNs baseSeq).2 = remaining g

theorem drive_cycles {G : Type} {step : G → UInt64 → UInt64 → List SequencedEvent × G}
    {remaining : G → ℕ} {P : Cycle → Prop} {ok : G → Prop}
    (hstep : ∀ g nowNs baseSeq, ok g → Emits step remaining P g nowNs baseSeq)
    (hok : ∀ g nowNs baseSeq, ok g → ok (step g nowNs baseSeq).2) {g : G} (hg : ok g)
    (calls : List (UInt64 × UInt64)) :
    ∃ cs : List Cycle, (drive step g calls).1 = cs.flatMap Cycle.events ∧ (∀ c ∈ cs, P c) ∧
      cs.length + remaining (drive step g calls).2 = remaining g := by
  induction calls generalizing g with
  | nil => exact ⟨[], rfl, by simp, Nat.zero_add _⟩
  | cons call calls ih =>
    obtain ⟨cs, hout, hcs, hcount⟩ := hstep g call.1 call.2 hg
    obtain ⟨cs', hout', hcs', hcount'⟩ := ih (hok g call.1 call.2 hg)
    refine ⟨cs ++ cs', ?_, ?_, ?_⟩
    · rw [drive, hout, hout', List.flatMap_append]
    · intro c hc
      rcases List.mem_append.mp hc with hc | hc
      · exact hcs c hc
      · exact hcs' c hc
    · show (cs ++ cs').length + remaining (drive step (step g call.1 call.2).2 calls).2 = remaining g
      rw [List.length_append]
      omega

/-- All of a step's cycles are taken off those that remain. -/
theorem take_cycles (per rem : UInt32) :
    (min per rem).toNat + (satSub32 rem (min per rem)).toNat = rem.toNat := by
  rw [satSub32_toNat, toNat_min32]
  omega

theorem DetRng.nextBelow_lt (r : DetRng) {n : UInt64} (h : n ≠ 0) :
    (r.nextBelow n).1.toNat < n.toNat := by
  have hpos : n.toNat ≠ 0 := fun hc => h (UInt64.toNat_inj.mp hc)
  rw [DetRng.nextBelow, if_neg h, UInt64.toNat_mod]
  exact Nat.mod_lt _ (by omega)

namespace PhantomLiquidityGenerator

theorem writesCycle (g : PhantomLiquidityGenerator) :
    WritesCycle (fun c => 200 ≤ c.qty) g.cycle := by
  intro p
  let side := p.rng.boolP (.fin (1 / 2))
  let off := side.2.nextBelow g.bandTicks
  let qty := off.2.nextBelow 800
  obtain ⟨c, hqty, hout⟩ := writesCycle_addCancel (sideOf side.1)
    (behind (sideOf side.1) g.basePrice (2 + off.1)) (200 + qty.1) g.addCancelGapNs
    { p with rng := qty.2 }
  refine ⟨c, ?_, hout⟩
  have hlt : qty.1.toNat < 800 := off.2.nextBelow_lt (by decide)
  have h200 : (200 : UInt64).toNat = 200 := rfl
  show 200 ≤ c.qty
  rw [hqty, UInt64.le_iff_toNat_le, UInt64.toNat_add, h200, Nat.mod_eq_of_lt (by omega)]
  omega

theorem emits (g : PhantomLiquidityGenerator) (nowNs baseSeq : UInt64) :
    Emits step (fun g => g.cyclesRemaining.toNat) (fun c => 200 ≤ c.qty) g nowNs baseSeq := by
  let cycles := min g.cyclesPerStep g.cyclesRemaining
  obtain ⟨cs, hlen, hcs, hout⟩ := forM_cycles (fun _ => g.writesCycle) (List.range cycles.toNat)
    ⟨g.rng, g.nextOid, baseSeq, nowNs, []⟩
  refine ⟨cs, hout, hcs, ?_⟩
  rw [hlen, List.length_range]
  exact take_cycles _ _

theorem drive_spec (g : PhantomLiquidityGenerator) (calls : List (UInt64 × UInt64)) :
    ∃ cs : List Cycle, (drive step g calls).1 = cs.flatMap Cycle.events ∧
      (∀ c ∈ cs, 200 ≤ c.qty) ∧
      cs.length + (drive step g calls).2.cyclesRemaining.toNat = g.cyclesRemaining.toNat :=
  @drive_cycles _ step _ _ (fun _ => True) (fun g nowNs baseSeq _ => g.emits nowNs baseSeq)
    (fun _ _ _ h => h) g trivial calls

end PhantomLiquidityGenerator

namespace SpoofGenerator

theorem writesCycle (g : SpoofGenerator) : WritesCycle (fun c => c.qty = g.qty) g.cycle := by
  intro p
  let side := p.rng.boolP (.fin (1 / 2))
  let off := side.2.nextBelow 4
  exact writesCycle_addCancel (sideOf side.1) (behind (sideOf side.1) g.basePrice (1 + off.1)) g.qty
    g.addCancelGapNs { p with rng := off.2 }

theorem emits (g : SpoofGenerator) (nowNs baseSeq : UInt64) :
    Emits step (fun g => g.cyclesRemaining.toNat) (fun c => c.qty = g.qty) g nowNs baseSeq := by
  let cycles := min g.cyclesPerStep g.cyclesRemaining
  obtain ⟨cs, hlen, hcs, hout⟩ := forM_cycles (fun _ => g.writesCycle) (List.range cycles.toNat)
    ⟨g.rng, g.nextOid, baseSeq, nowNs, []⟩
  refine ⟨cs, hout, hcs, ?_⟩
  rw [hlen, List.length_range]
  exact take_cycles _ _

theorem drive_spec (g : SpoofGenerator) (calls : List (UInt64 × UInt64)) :
    ∃ cs : List Cycle, (drive step g calls).1 = cs.flatMap Cycle.events ∧
      (∀ c ∈ cs, c.qty = g.qty) ∧
      cs.length + (drive step g calls).2.cyclesRemaining.toNat = g.cyclesRemaining.toNat :=
  @drive_cycles _ step _ _ (fun g' => g'.qty = g.qty)
    (fun g' nowNs baseSeq hqty => hqty ▸ g'.emits nowNs baseSeq) (fun _ _ _ h => h) g rfl calls

end SpoofGenerator

/-- The flag of a cycle: of this kind, from the add to the cancel. -/
def Cycle.Flagged (kind : ChaosKind) (c : Cycle) (flag : ChaosEvent) : Prop :=
  flag.kind = kind ∧ flag.startSeq = c.add.seq ∧ flag.endSeq = c.cancel.seq

namespace PhantomLiquidityDetector

theorem satAdd64_zero (a : UInt64) : satAdd64 0 a = a := by
  have ha := a.toNat_lt
  apply UInt64.toNat_inj.mp
  rw [satAdd64_toNat, UInt64.toNat_zero]
  omega

/-- What a full cancel leaves of the tracker of a single add. -/
theorem charged_opened {c : Cycle} (hqty : 200 ≤ c.qty) :
    (LevelTracker.opened c.add).charged c.qty =
      { LevelTracker.opened c.add with cancelledQty := c.qty, cancelCount := 1 } := by
  have hne : ¬ c.qty = 0 := by
    rintro h
    rw [h] at hqty
    exact absurd hqty (by decide)
  rw [LevelTracker.charged, LevelTracker.removedQty, if_neg hne]
  have hsum : satAdd64 (LevelTracker.opened c.add).cancelledQty c.qty = c.qty := satAdd64_zero c.qty
  rw [hsum]
  rfl

/-- The add of a cycle at a detector that has seen nothing: one level and, under its id, one order. -/
theorem onAdd_new (hashOrder : HashOrder) (c : Cycle) :
    (new 256 5000000 4096 100 hashOrder).onAdd c.add =
      { new 256 5000000 4096 100 hashOrder with
        levels := (∅ : ExtTreeMap LevelKey LevelTracker).insert (levelOf c.add.event) (.opened c.add)
        orders :=
          if c.oid ≠ 0 then (∅ : ExtTreeMap UInt64 LevelKey).insert c.oid (levelOf c.add.event)
          else ∅ } := by
  have hroom : (new 256 5000000 4096 100 hashOrder).makeRoom = new 256 5000000 4096 100 hashOrder := by
    refine if_neg ?_
    show ¬ 4096 ≤ (∅ : ExtTreeMap LevelKey LevelTracker).size
    rw [ExtTreeMap.size_empty]
    decide
  have hnone : (∅ : ExtTreeMap LevelKey LevelTracker)[levelOf c.add.event]? = none :=
    ExtTreeMap.getElem?_empty
  rw [onAdd, hroom]
  show ({ new 256 5000000 4096 100 hashOrder with
    levels := (∅ : ExtTreeMap LevelKey LevelTracker).insert (levelOf c.add.event)
      (.entered (∅ : ExtTreeMap LevelKey LevelTracker)[levelOf c.add.event]? c.add)
    orders := _ } : PhantomLiquidityDetector) = _
  rw [hnone]
  rfl

theorem erase_insert_empty {κ ν : Type} [Ord κ] [TransOrd κ] [LawfulEqOrd κ] [DecidableEq κ] (k : κ)
    (v : ν) : ((∅ : ExtTreeMap κ ν).insert k v).erase k = ∅ := by
  apply ExtTreeMap.ext_getElem?
  intro a
  rw [FiniteMap.get_erase, FiniteMap.get_insert, ExtTreeMap.getElem?_empty]
  split_ifs <;> rfl

/-- The tracker of a cycle is within the sequence window, and above the quantity floor. -/
theorem qualifies_charged {d : PhantomLiquidityDetector} (hgap : d.maxSeqGap = 256)
    (hmin : d.minQty = 100) {c : Cycle} (hqty : 200 ≤ c.qty) :
    d.Qualifies ((LevelTracker.opened c.add).charged c.qty) c.cancel := by
  rw [charged_opened hqty]
  have hseq : (satSub64 (c.seq + 1) c.seq).toNat ≤ 1 := by
    rw [satSub64_toNat, UInt64.toNat_add]
    have h1 : (1 : UInt64).toNat = 1 := rfl
    have := Nat.mod_le (c.seq.toNat + (1 : UInt64).toNat) (2 ^ 64)
    omega
  have hfloor : (100 : UInt64) ≤ c.qty := UInt64.le_trans (by decide) hqty
  refine ⟨by rw [hmin]; exact hfloor, ?_⟩
  have hwindow : satSub64 (c.seq + 1) c.seq ≤ 256 := by
    rw [UInt64.le_iff_toNat_le]
    exact hseq.trans (by decide)
  rw [insideWindow, hgap, Bool.or_eq_true, Bool.and_eq_true]
  exact .inl ⟨rfl, decide_eq_true hwindow⟩

/-- The cancel that completes a tracker that qualifies. -/
theorem onCancel_full {d : PhantomLiquidityDetector} {ev : SequencedEvent} (key : LevelKey)
    {t : LevelTracker} (htarget : d.target ev.event = some key) (hlevel : d.levels[key]? = some t)
    (hfull : (t.charged ev.event.qty).fullyCancelled = true)
    (hqual : (d.release ev.event).Qualifies (t.charged ev.event.qty) ev) :
    d.onCancel ev = ({ d.release ev.event with levels := d.levels.erase key },
      some ((d.release ev.event).buildFlag (t.charged ev.event.qty) ev)) := by
  rw [onCancel, htarget]
  simp only [release_levels, hlevel, charge, if_pos hfull, if_pos hqual]

/-- The cancel of a cycle, which is charged to the level of the add, finds that level alone. -/
theorem onCancel_new (hashOrder : HashOrder) {c : Cycle} (hqty : 200 ≤ c.qty) :
    ((new 256 5000000 4096 100 hashOrder).onAdd c.add).onCancel c.cancel =
      (new 256 5000000 4096 100 hashOrder,
        some ((new 256 5000000 4096 100 hashOrder).buildFlag
          ((LevelTracker.opened c.add).charged c.qty) c.cancel)) := by
  have hfull : ((LevelTracker.opened c.add).charged c.qty).fullyCancelled = true := by
    rw [charged_opened hqty, LevelTracker.fullyCancelled, Bool.and_eq_true]
    exact ⟨decide_eq_true (UInt64.le_refl c.qty), rfl⟩
  have hlevel : ((∅ : ExtTreeMap LevelKey LevelTracker).insert (levelOf c.add.event)
      (.opened c.add))[levelOf c.add.event]? = some (LevelTracker.opened c.add) := by
    rw [FiniteMap.get_insert, if_pos rfl]
  rw [onAdd_new]
  by_cases hid : c.oid = 0
  · -- Without an id the cancel names the level itself.
    rw [if_neg (not_not.mpr hid)]
    have hfree : ¬ c.cancel.event.orderId ≠ 0 := not_not.mpr hid
    rw [onCancel_full (levelOf c.add.event) (if_neg hfree) hlevel hfull
      (qualifies_charged (by rw [release, if_neg hfree]; rfl) (by rw [release, if_neg hfree]; rfl) hqty)]
    rw [release, if_neg hfree, erase_insert_empty]
    rfl
  · rw [if_pos hid]
    have hnamed : c.cancel.event.orderId ≠ 0 := hid
    have horder : ((∅ : ExtTreeMap UInt64 LevelKey).insert c.oid (levelOf c.add.event))[c.oid]? =
        some (levelOf c.add.event) := by
      rw [FiniteMap.get_insert, if_pos rfl]
    rw [onCancel_full (levelOf c.add.event) ((if_pos hnamed).trans horder) hlevel hfull
      (qualifies_charged (by rw [release, if_pos hnamed]; rfl) (by rw [release, if_pos hnamed]; rfl) hqty)]
    rw [release, if_pos hnamed, erase_insert_empty]
    have hback : ((∅ : ExtTreeMap UInt64 LevelKey).insert c.oid (levelOf c.add.event)).erase
        c.cancel.event.orderId = ∅ := erase_insert_empty c.oid _
    rw [hback]
    rfl

/-- What a cycle raises. -/
def flagOf (hashOrder : HashOrder) (c : Cycle) : ChaosEvent :=
  (new 256 5000000 4096 100 hashOrder).buildFlag ((LevelTracker.opened c.add).charged c.qty) c.cancel

theorem flagged (hashOrder : HashOrder) {c : Cycle} (hqty : 200 ≤ c.qty) :
    c.Flagged .phantomLiquidity (flagOf hashOrder c) := by
  refine ⟨rfl, ?_, rfl⟩
  show ((LevelTracker.opened c.add).charged c.qty).createdSeq = c.add.seq
  rw [charged_opened hqty]
  rfl

/-- The detector that has seen nothing answers a cycle with one flag, and has seen nothing. -/
theorem run_cycle (hashOrder : HashOrder) {c : Cycle} (hqty : 200 ≤ c.qty) :
    Machine.run process (new 256 5000000 4096 100 hashOrder) c.events =
      (new 256 5000000 4096 100 hashOrder, [none, some (flagOf hashOrder c)]) := by
  let d := new 256 5000000 4096 100 hashOrder
  have hadd : d.process c.add = (d.onAdd c.add, none) := rfl
  have hcancel : (d.onAdd c.add).process c.cancel = (d, some (flagOf hashOrder c)) :=
    onCancel_new hashOrder hqty
  rw [Cycle.events, Machine.run, Machine.run, Machine.run, hadd, hcancel]

end PhantomLiquidityDetector

namespace SpoofDetector

def flagOf (c : Cycle) : ChaosEvent :=
  (new 1000 64).buildFlag ⟨c.seq, c.addTs, c.oid, c.qty⟩ c.cancel

theorem flagged (c : Cycle) : c.Flagged .spoof (flagOf c) := ⟨rfl, rfl, rfl⟩

/-- The detector that holds no order answers a cycle with one flag, and holds none. -/
theorem process_cycle {c : Cycle} (hqty : 1000 ≤ c.qty) (hseq : c.add.seq < c.cancel.seq) :
    ∃ d, process (new 1000 64) c.add = some (d, none) ∧
      process d c.cancel = some (new 1000 64, some (flagOf c)) := by
  let o : LargeOrder := ⟨c.seq, c.addTs, c.oid, c.qty⟩
  have hwindow : ({ new 1000 64 with largeOrders := [o] } : SpoofDetector).cancelWindow.toNat < 2 ^ 63 :=
    show (64 : UInt64).toNat < 2 ^ 63 by decide
  have hprune : ({ new 1000 64 with largeOrders := [o] } : SpoofDetector).prune c.seq =
      some { new 1000 64 with largeOrders := [o] } := by
    rw [prune_eq hwindow (by simp [o])]
    simp [o, new]
  have hage : checkedSub64 c.cancel.seq o.seq = some 1 := by
    have hsub : c.cancel.seq - c.add.seq = 1 := by
      show c.seq + 1 - c.seq = 1
      rw [UInt64.add_comm, UInt64.add_sub_cancel]
    exact (checkedSub64_of_le (UInt64.le_of_lt hseq)).trans (congrArg some hsub)
  refine ⟨{ new 1000 64 with largeOrders := [o] }, ?_, ?_⟩
  · show (if (1000 : UInt64) ≤ c.qty then
      (({ new 1000 64 with largeOrders := [o] } : SpoofDetector).prune c.seq).bind
        fun d => some (d, none) else _) = _
    rw [if_pos hqty, hprune]
    rfl
  · have hfind : [o].find? (·.orderId = c.cancel.event.orderId) = some o :=
      List.find?_cons_of_pos (decide_eq_true rfl)
    have herase : [o].eraseP (·.orderId = c.cancel.event.orderId) = [] :=
      List.eraseP_cons_of_pos (decide_eq_true rfl)
    show onCancel { new 1000 64 with largeOrders := [o] } c.cancel = _
    rw [onCancel, hfind]
    simp only [herase, hage, Option.bind_eq_bind, Option.bind_some, Option.pure_def]
    rfl

theorem run_cycles {cs : List Cycle} (hqty : ∀ c ∈ cs, 1000 ≤ c.qty)
    (hseq : ∀ c ∈ cs, c.add.seq < c.cancel.seq) :
    run process (new 1000 64) (cs.flatMap Cycle.events) =
      some (new 1000 64, cs.flatMap fun c => [none, some (flagOf c)]) := by
  induction cs with
  | nil => rfl
  | cons c cs ih =>
    obtain ⟨d, hadd, hcancel⟩ :=
      process_cycle (hqty c (List.mem_cons_self ..)) (hseq c (List.mem_cons_self ..))
    have hcs := ih (fun c' hc' => hqty c' (List.mem_cons_of_mem c hc'))
      fun c' hc' => hseq c' (List.mem_cons_of_mem c hc')
    rw [List.flatMap_cons, List.flatMap_cons, Cycle.events, List.cons_append, List.cons_append,
      List.nil_append, run, hadd]
    simp only [Option.bind_eq_bind, Option.bind_some, run, hcancel, hcs, Option.pure_def]
    rfl

end SpoofDetector

/-- What one flag a cycle means for all that a detector returns. -/
theorem flags_of_cycles {kind : ChaosKind} {flag : Cycle → ChaosEvent} {cs : List Cycle}
    (h : ∀ c ∈ cs, c.Flagged kind (flag c)) :
    ((cs.flatMap fun c => [none, some (flag c)]).filterMap id).map
        (fun f => (f.kind, f.startSeq, f.endSeq)) =
      cs.map fun c => (kind, c.add.seq, c.cancel.seq) := by
  induction cs with
  | nil => rfl
  | cons c cs ih =>
    obtain ⟨hkind, hstart, hend⟩ := h c (List.mem_cons_self ..)
    have hcs := ih fun c' hc' => h c' (List.mem_cons_of_mem c hc')
    rw [List.flatMap_cons, List.filterMap_append, List.map_append, hcs]
    simp [hkind, hstart, hend]

/-- Every flag of what a detector returns is the flag of a cycle, cycle by cycle. -/
def FlagsEachCycle (kind : ChaosKind) (cs : List Cycle) (outs : List (Option ChaosEvent)) : Prop :=
  (outs.filterMap id).map (fun f => (f.kind, f.startSeq, f.endSeq)) =
    cs.map fun c => (kind, c.add.seq, c.cancel.seq)

/-- Of what a generator emits at some calls, the phantom detector flags every cycle once and nothing
else. -/
def PhantomLiquidityGenerator.ClosedLoop (g : PhantomLiquidityGenerator) (hashOrder : HashOrder)
    (calls : List (UInt64 × UInt64)) : Prop :=
  ∃ cs : List Cycle, (drive step g calls).1 = cs.flatMap Cycle.events ∧
    cs.length + (drive step g calls).2.cyclesRemaining.toNat = g.cyclesRemaining.toNat ∧
    FlagsEachCycle .phantomLiquidity cs
      (Machine.run PhantomLiquidityDetector.process (.new 256 5000000 4096 100 hashOrder)
        (drive step g calls).1).2

/-- The same of the spoof detector, which does not panic. -/
def SpoofGenerator.ClosedLoop (g : SpoofGenerator) (calls : List (UInt64 × UInt64)) : Prop :=
  ∃ (cs : List Cycle) (d : SpoofDetector) (outs : List (Option ChaosEvent)),
    (drive step g calls).1 = cs.flatMap Cycle.events ∧
    cs.length + (drive step g calls).2.cyclesRemaining.toNat = g.cyclesRemaining.toNat ∧
    SpoofDetector.run SpoofDetector.process (.new 1000 64) (drive step g calls).1 = some (d, outs) ∧
    FlagsEachCycle .spoof cs outs

theorem PhantomLiquidityGenerator.closedLoop (g : PhantomLiquidityGenerator) (hashOrder : HashOrder)
    (calls : List (UInt64 × UInt64)) : g.ClosedLoop hashOrder calls := by
  obtain ⟨cs, hout, hqty, hcount⟩ := g.drive_spec calls
  refine ⟨cs, hout, hcount, ?_⟩
  rw [hout, Machine.run_flatMap fun c hc => PhantomLiquidityDetector.run_cycle hashOrder (hqty c hc)]
  exact flags_of_cycles fun c hc => PhantomLiquidityDetector.flagged hashOrder (hqty c hc)

theorem SpoofGenerator.closedLoop {g : SpoofGenerator} (hqty : 1000 ≤ g.qty)
    {calls : List (UInt64 × UInt64)}
    (hinc : (drive step g calls).1.Pairwise fun a b => a.seq < b.seq) : g.ClosedLoop calls := by
  obtain ⟨cs, hout, hcycle, hcount⟩ := g.drive_spec calls
  rw [hout] at hinc
  have hseq : ∀ c ∈ cs, c.add.seq < c.cancel.seq := fun c hc =>
    (List.pairwise_cons.mp ((List.pairwise_flatMap.mp hinc).1 c hc)).1 c.cancel
      (List.mem_singleton_self _)
  refine ⟨cs, .new 1000 64, _, hout, hcount, ?_, flags_of_cycles fun c _ => SpoofDetector.flagged c⟩
  rw [hout]
  exact SpoofDetector.run_cycles (fun c hc => (hcycle c hc).symm ▸ hqty) hseq

/-- Whatever the seed, the severity, the price, the number of cycles and of those a step, the gap
inside them and the calls, both detectors flag each cycle once; the one for spoofs where the sequence
numbers increase. -/
theorem closed_loop (seed : UInt64) (severity : Fp) (basePrice : UInt64)
    (totalCycles cyclesPerStep : UInt32) (addCancelGapNs : UInt64) (hashOrder : HashOrder)
    {qty : UInt64} (hqty : 2000 ≤ qty) (calls : List (UInt64 × UInt64))
    (hinc : (drive SpoofGenerator.step
      { SpoofGenerator.new seed severity basePrice totalCycles with
        cyclesPerStep := cyclesPerStep, addCancelGapNs := addCancelGapNs, qty := qty } calls).1.Pairwise
      fun a b => a.seq < b.seq) :
    PhantomLiquidityGenerator.ClosedLoop
        { PhantomLiquidityGenerator.new seed severity basePrice totalCycles with
          cyclesPerStep := cyclesPerStep, addCancelGapNs := addCancelGapNs } hashOrder calls ∧
      SpoofGenerator.ClosedLoop
        { SpoofGenerator.new seed severity basePrice totalCycles with
          cyclesPerStep := cyclesPerStep, addCancelGapNs := addCancelGapNs, qty := qty } calls :=
  ⟨PhantomLiquidityGenerator.closedLoop _ hashOrder calls,
    SpoofGenerator.closedLoop (UInt64.le_trans (by decide) hqty) hinc⟩

theorem closed_loop_three :
    PhantomLiquidityGenerator.ClosedLoop
        { PhantomLiquidityGenerator.new 7 (.fin 1) 100000 3 with
          cyclesPerStep := 2, addCancelGapNs := 2000000 } .byLevel [(0, 1), (5000000, 5)] ∧
      SpoofGenerator.ClosedLoop
        { SpoofGenerator.new 7 (.fin 1) 100000 3 with
          cyclesPerStep := 2, addCancelGapNs := 2000000, qty := 2000 } [(0, 1), (5000000, 5)] :=
  closed_loop 7 (.fin 1) 100000 3 2 2000000 .byLevel (by decide) [(0, 1), (5000000, 5)]
    (by decide +kernel)

end Flowlab.Chaos
