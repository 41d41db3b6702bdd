import Flowlab.Chaos.CrashRun
import Flowlab.Chaos.ClosedLoop

namespace Flowlab.Chaos

open Std Framework Rounding Writer
open Flowlab.Core (Event EventType Side OrderMeta SequencedEvent satSub64 toNat_succ)

/-- The counter after `n` steps, which may wrap. -/
def after (c : UInt64) : ℕ → UInt64
  | 0 => c
  | n + 1 => after c n + 1

theorem after_toNat {c : UInt64} {n : ℕ} (h : c.toNat + n < 2 ^ 64) :
    (after c n).toNat = c.toNat + n := by
  induction n with
  | zero => rfl
  | succ n ih =>
    have hn := ih (by omega)
    rw [after, toNat_succ (by omega), hn]
    rfl

/-! The events of one step: the seeding, the burst. -/

section

variable (base oid seq nowNs : UInt64)

def burstTs : ℕ → UInt64
  | 0 => satAdd64 nowNs 1000
  | n + 1 => satAdd64 (burstTs n) 20000

def seeding : List SequencedEvent :=
  [mk seq nowNs .orderAdd .bid (rung base .bid true) 5000 oid,
    mk (after seq 1) nowNs .orderAdd .ask (rung base .ask true) 3000 (after oid 1),
    mk (after seq 2) nowNs .orderAdd .bid (rung base .bid false) 200 (after oid 2),
    mk (after seq 3) nowNs .orderAdd .ask (rung base .ask false) 200 (after oid 3)]

/-- The cancel of the first add. -/
def pulling : SequencedEvent :=
  mk (after seq 4) (burstTs nowNs 0) .orderCancel .bid (rung base .bid true) 5000 oid

/-- The cut into the near ask, where there is one. -/
def cutting (cut : UInt64) : List SequencedEvent :=
  if 0 < cut then
    [mk (after seq 5) (burstTs nowNs 1) .orderCancel .ask (rung base .ask true) cut (after oid 1)]
  else []

/-- Trade `k`, `n` events after the cancel of the first add. -/
def selling (n k : ℕ) : SequencedEvent :=
  mk (after seq (n + 4)) (burstTs nowNs n) .trade .bid (rung base .bid false) 50 (after oid (k + 4))

/-- The trades before the third, from event `n` after the cancel of the first add. -/
def selling2 (n : ℕ) : List SequencedEvent :=
  [selling base oid seq nowNs n 0, selling base oid seq nowNs (n + 1) 1]

/-- What follows the cancel of the first add, up to the third trade. -/
def burst (cut : UInt64) : List SequencedEvent :=
  let n := if 0 < cut then 2 else 1
  cutting base oid seq nowNs cut ++
    (selling2 base oid seq nowNs n ++ [selling base oid seq nowNs (n + 2) 2])

def batch (cut : UInt64) : List SequencedEvent :=
  let n := if 0 < cut then 2 else 1
  seeding base oid seq nowNs ++
    (pulling base oid seq nowNs :: (cutting base oid seq nowNs cut ++
      (selling2 base oid seq nowNs n ++
        [selling base oid seq nowNs (n + 2) 2, selling base oid seq nowNs (n + 3) 3])))

theorem batch_eq (cut : UInt64) :
    batch base oid seq nowNs cut =
      (seeding base oid seq nowNs ++ pulling base oid seq nowNs :: burst base oid seq nowNs cut) ++
        [selling base oid seq nowNs ((if 0 < cut then 2 else 1) + 3) 3] := by
  simp only [batch, burst, List.append_assoc, List.cons_append, List.nil_append]

end

namespace FlashCrashGenerator

/-- How far a burst cuts into the near ask, of which 100 are left. -/
def cutFor (want : UInt64) : UInt64 := if 5000 < want then min (want - 5000) 2900 else 0

def cut (g : FlashCrashGenerator) : UInt64 :=
  cutFor ((Fp.ofU64 8000).mul g.targetVacuumPct).toU64

theorem cutFor_le (want : UInt64) : (cutFor want).toNat ≤ 2900 := by
  rw [cutFor]
  split_ifs
  · show (if want - 5000 ≤ 2900 then want - 5000 else 2900).toNat ≤ 2900
    split_ifs with hle
    · exact UInt64.le_iff_toNat_le.mp hle
    · exact le_rfl
  · exact Nat.zero_le _

/-- Nothing rests that a step would have to clear first. -/
structure Fresh (g : FlashCrashGenerator) : Prop where
  seeded : g.seeded = false
  resting : g.resting = []
  down : g.crashDown = true
  bursts : 0 < g.burstsRemaining

/-- What rests once the depth is seeded. -/
def seededRest (base oid : UInt64) : List Resting :=
  [⟨0, rung base .bid true, 5000, oid⟩, ⟨1, rung base .ask true, 3000, after oid 1⟩]

theorem seedDepth_resting {g : FlashCrashGenerator} (h : g.resting = []) (p : Pen) :
    (g.seedDepth p).1.resting = seededRest g.basePrice p.nextOid := by
  have hrest : (g.seedDepth p).1.resting = g.resting ++ seededRest g.basePrice p.nextOid := rfl
  rw [hrest, h, List.nil_append]

theorem wantDrop_seeded {g : FlashCrashGenerator} (base oid : UInt64)
    (h : g.resting = seededRest base oid) :
    g.wantDrop = ((Fp.ofU64 8000).mul g.targetVacuumPct).toU64 := by
  have htotal : (seededRest base oid).foldl (fun total r => total + r.qty) 0 = 8000 := rfl
  rw [wantDrop, h, htotal]

/-- The pen after an event of the burst, and the wait behind it. -/
def wrote (p : Pen) (et : EventType) (side : Side) (price qty oid : UInt64) : Pen :=
  { p with
    seq := p.seq + 1
    ts := satAdd64 p.ts 20000
    out := p.out ++ [Chaos.mk p.seq p.ts et side price qty oid] }

theorem cancelBid_seeded (base oid : UInt64) (p : Pen) :
    cancelBid (seededRest base oid) p =
      ((5000, [⟨1, rung base .ask true, 3000, after oid 1⟩]),
        wrote p .orderCancel .bid (rung base .bid true) 5000 oid) := by
  have hsum : satAdd64 0 5000 = 5000 := by decide
  have hcancel : cancelBid (seededRest base oid) p =
      ((satAdd64 0 5000, [⟨1, rung base .ask true, 3000, after oid 1⟩]),
        wrote p .orderCancel .bid (rung base .bid true) 5000 oid) := rfl
  rw [hcancel, hsum]

theorem cutAsk_seeded (want base oid : UInt64) (p : Pen) :
    (cutAsk want 5000 [⟨1, rung base .ask true, 3000, oid⟩] p).2 =
      if 0 < cutFor want then
        wrote p .orderCancel .ask (rung base .ask true) (cutFor want) oid
      else p := by
  have hleft : satSub64 3000 100 = 2900 := by decide
  rw [cutAsk, cutFor]
  by_cases hwant : 5000 < want
  · rw [if_pos hwant, if_pos hwant]
    show ((if 0 < min (want - 5000) (satSub64 3000 100) then _ else _ : Write (List Resting)) p).2 = _
    rw [hleft]
    by_cases hcut : 0 < min (want - 5000) 2900
    · rw [if_pos hcut, if_pos hcut]
      rfl
    · rw [if_neg hcut, if_neg hcut]
      rfl
  · rw [if_neg hwant, if_neg hwant, if_neg (UInt64.lt_irrefl 0)]
    rfl

/-- A trade takes its id and writes as the other events do. -/
def sold (base : UInt64) (p : Pen) : Pen :=
  wrote { p with nextOid := p.nextOid + 1 } .trade .bid (rung base .bid false) 50 p.nextOid

theorem trades_eq {g : FlashCrashGenerator} (h : g.crashDown = true) (p : Pen) :
    ((List.range 4).forM (fun _ => g.trade) p).2 = (sold g.basePrice)^[4] p := by
  have htrade : (fun q => (g.trade q).2) = sold g.basePrice := by
    have hprice : behind (sideOf true) g.basePrice 200 = rung g.basePrice .bid false := rfl
    funext q
    rw [trade, h, hprice]
    rfl
  rw [Write.forM_iterate, htrade, List.length_range]

/-- The pen after a burst that cuts `cut` into the near ask. -/
def burstPen (base oid cut : UInt64) (p : Pen) : Pen :=
  let q := wrote p .orderCancel .bid (rung base .bid true) 5000 oid
  (sold base)^[4]
    (if 0 < cut then wrote q .orderCancel .ask (rung base .ask true) cut (after oid 1) else q)

theorem oneBurst_eq {g : FlashCrashGenerator} (hdown : g.crashDown = true) {oid : UInt64}
    (hresting : g.resting = seededRest g.basePrice oid) (p : Pen) :
    ∃ resting, g.oneBurst p = ({ g with resting := resting }, burstPen g.basePrice oid g.cut p) := by
  rw [oneBurst, Write.bind_eq, hresting, cancelBid_seeded, Write.bind_eq,
    wantDrop_seeded g.basePrice oid hresting]
  dsimp only
  rw [Write.bind_eq, Write.pure_eq, trades_eq hdown, cutAsk_seeded]
  exact ⟨_, rfl⟩

/-- Of a step from a fresh start: the pen after it, and the generator without what the pen holds. -/
theorem body_eq {g : FlashCrashGenerator} (h : g.Fresh) (nowNs : UInt64) (p : Pen) :
    ∃ resting, g.body nowNs p =
      (reseed { g with
          seeded := true, resting := resting, burstsRemaining := g.burstsRemaining - 1 },
        burstPen g.basePrice p.nextOid g.cut { (g.seedDepth p).2 with ts := satAdd64 nowNs 1000 }) := by
  have hseed : g.seedOnce = g.seedDepth := by
    rw [seedOnce, if_neg (by rw [h.seeded]; exact Bool.false_ne_true)]
  obtain ⟨resting, hone⟩ := oneBurst_eq (g := (g.seedDepth p).1) h.down
    (seedDepth_resting h.resting p) { (g.seedDepth p).2 with ts := satAdd64 nowNs 1000 }
  have hpos : 0 < (g.seedDepth p).1.burstsRemaining := h.bursts
  have hset : Write.setTs (satAdd64 nowNs 1000) (g.seedDepth p).2 =
      ((), { (g.seedDepth p).2 with ts := satAdd64 nowNs 1000 }) := rfl
  refine ⟨resting, ?_⟩
  rw [body, Write.bind_eq, hseed, Write.bind_eq, burstOnce, if_pos hpos, Write.bind_eq, hset, Write.bind_eq, hone, Write.pure_eq,
    Write.pure_eq]
  rfl

theorem step_eq {g : FlashCrashGenerator} (h : g.Fresh) (nowNs baseSeq : UInt64) :
    (g.step nowNs baseSeq).1 = batch g.basePrice g.nextOid baseSeq nowNs g.cut := by
  obtain ⟨resting, hbody⟩ := body_eq h nowNs ⟨g.rng, g.nextOid, baseSeq, nowNs, []⟩
  rw [step]
  dsimp only
  rw [hbody, batch, cutting]
  dsimp only
  rw [burstPen]
  by_cases hcut : 0 < g.cut
  · simp only [if_pos hcut]
    rfl
  · simp only [if_neg hcut]
    rfl

/-- The generator after such a step: fresh for the next burst, or done. -/
theorem step_next {g : FlashCrashGenerator} (h : g.Fresh) (nowNs baseSeq : UInt64) :
    (g.step nowNs baseSeq).2.basePrice = g.basePrice ∧
      (g.step nowNs baseSeq).2.nextOid = after g.nextOid 8 ∧
      (g.step nowNs baseSeq).2.burstsRemaining = g.burstsRemaining - 1 ∧
      (0 < g.burstsRemaining - 1 → (g.step nowNs baseSeq).2.Fresh) ∧
      (¬ 0 < g.burstsRemaining - 1 → (g.step nowNs baseSeq).2.seeded = true) := by
  obtain ⟨resting, hbody⟩ := body_eq h nowNs ⟨g.rng, g.nextOid, baseSeq, nowNs, []⟩
  have hoid (p : Pen) : (burstPen g.basePrice g.nextOid g.cut p).nextOid = after p.nextOid 4 := by
    rw [burstPen]
    split_ifs <;> rfl
  rw [step]
  dsimp only
  rw [hbody, reseed]
  dsimp only
  rw [hoid]
  split_ifs with hmore
  · exact ⟨rfl, rfl, rfl, fun _ => ⟨rfl, rfl, h.down, hmore⟩, fun hnone => absurd hmore hnone⟩
  · exact ⟨rfl, rfl, rfl, fun hsome => absurd hsome hmore, fun _ => rfl⟩

/-- Without bursts left a seeded generator writes nothing and stays as it is. -/
theorem step_done {g : FlashCrashGenerator} (hseeded : g.seeded = true)
    (hbursts : ¬ 0 < g.burstsRemaining) (nowNs baseSeq : UInt64) :
    (g.step nowNs baseSeq).1 = [] ∧ (g.step nowNs baseSeq).2.seeded = true ∧
      ¬ 0 < (g.step nowNs baseSeq).2.burstsRemaining := by
  have hbody (p : Pen) : g.body nowNs p = (g, p) := by
    rw [body, Write.bind_eq, seedOnce, if_pos hseeded, Write.pure_eq, Write.bind_eq, burstOnce, if_neg hbursts, Write.pure_eq,
      Write.pure_eq, reseed, if_neg hbursts]
  rw [step]
  dsimp only
  rw [hbody]
  exact ⟨rfl, hseeded, hbursts⟩

end FlashCrashGenerator

/-! The batch on a detector. -/

theorem OrderTracker.settle_get {t : OrderTracker} {i j : UInt64} (h : j ≠ i) (m : OrderMeta)
    (qty : UInt64) : (t.settle i m qty).orders[j]? = t.orders[j]? := by
  rw [settle]
  split_ifs
  · exact (FiniteMap.get_erase _ _ _).trans (if_neg h)
  · exact (FiniteMap.get_insert _ _ _ _).trans (if_neg h)

theorem after_ne {c : UInt64} {i j : ℕ} (hij : i ≠ j) (hi : c.toNat + i < 2 ^ 64)
    (hj : c.toNat + j < 2 ^ 64) : after c i ≠ after c j := by
  intro he
  have hnat := congrArg UInt64.toNat he
  rw [after_toNat hi, after_toNat hj] at hnat
  omega

/-- In a step that found `a` at the near ask: while the near bid is there, only the seeding has changed
the near ask. -/
def Cells.Started (a : Option UInt64) (c : Cells) : Prop :=
  c.nearBid = none ∨ c.nearBid = some 5000 ∧ (c.nearAsk = a ∨ c.nearAsk = some (a.getD 0 + 3000))

namespace FlashCrashDetector

/-- The sum of the touch fits, and the mid is one of the two prices where it is defined. -/
structure Within (base : UInt64) (d : FlashCrashDetector) : Prop where
  fits : d.midFits = true
  mid : ∀ m, d.midprice = some m → m = base ∨ m = base - 100

/-- An event of a step that found `a` at the near ask: the mid stays within, no buyer is counted, and
a seller for each trade. -/
structure Steady (base : UInt64) (a : Option UInt64) (d : FlashCrashDetector)
    (ev : SequencedEvent) : Prop where
  etype : ∃ t, EventType.fromU8 ev.event.eventType = some t ∧ t ≠ .bookSnapshot
  before : ∃ c orders, Holds base c orders d ∧ c.Started a
  after : Within base (d.entered ev)
  buy : (d.entered ev).buyAggr = d.buyAggr
  sell : (d.entered ev).sellAggr =
    if ev.event.eventType = EventType.trade.toU8 then satAdd32 d.sellAggr 1 else d.sellAggr

namespace Holds

variable {base : UInt64} {a : Option UInt64} {c : Cells} {orders : ExtTreeMap UInt64 OrderMeta}
  {d : FlashCrashDetector} (hbase : Clear base)

include hbase

theorem within (h : Holds base c orders d) : Within base d := by
  obtain ⟨hfits, hmid⟩ := h.mid_cases hbase
  refine ⟨hfits, ?_⟩
  intro m hm
  rcases hmid with hnone | hsome
  · rw [hnone] at hm
    exact absurd hm (by simp)
  · rw [hsome] at hm
    rw [← Option.some.inj hm]
    split_ifs
    · exact .inl rfl
    · exact .inr rfl

variable {next : FlashCrashDetector → SequencedEvent → FlashCrashDetector}
  (hnext : ∀ d ev, SameCaches (d.entered ev) (next d ev)) {oid : UInt64} (hoid : oid ≠ 0)

include hnext hoid

theorem step_add (h : Holds base c orders d) (hc : c.Started a) (s : Side) (near : Bool)
    (qty seq ts : UInt64) (c' : Cells) (hroom : c.qty .bid + c.qty .ask + qty.toNat < 2 ^ 64)
    (hc' : c.set s near (some ((c.get s near).getD 0 + qty)) = c') (hproper : c'.Proper) :
    let ev := Chaos.mk seq ts .orderAdd s (rung base s near) qty oid
    Steady base a d ev ∧
      Holds base c' (orders.insert oid ⟨rung base s near, qty, s.toU8⟩) (next d ev) := by
  intro ev
  have h' := h.add hbase hoid s near qty seq ts hroom hc' hproper
  have hcounters :=
    d.entered_uncounted EventType.orderAdd (by simp) s seq ts (rung base s near) qty oid
  exact ⟨⟨⟨.orderAdd, rfl, by simp⟩, ⟨c, orders, h, hc⟩, h'.within hbase, hcounters.buy,
    hcounters.sell⟩, h'.sameCaches (hnext d ev)⟩

theorem step_cancel (h : Holds base c orders d) (hc : c.Started a) (s : Side) (near : Bool)
    (known qty seq ts : UInt64) (hqty : qty ≠ 0) (hle : qty ≤ known)
    (horder : orders[oid]? = some ⟨rung base s near, known, s.toU8⟩) {c' : Cells}
    (hc' : c.set s near (lessened qty (c.get s near)) = c') (hproper : c'.Proper) :
    let ev := Chaos.mk seq ts .orderCancel s (rung base s near) qty oid
    Steady base a d ev ∧
      Holds base c' ((OrderTracker.mk orders).settle oid ⟨rung base s near, known, s.toU8⟩ qty).orders
        (next d ev) := by
  intro ev
  have h' := h.cancel hbase hoid s near seq ts hqty hle horder hc' hproper
  have hcounters :=
    d.entered_uncounted EventType.orderCancel (by simp) s seq ts (rung base s near) qty oid
  exact ⟨⟨⟨.orderCancel, rfl, by simp⟩, ⟨c, orders, h, hc⟩, h'.within hbase, hcounters.buy,
    hcounters.sell⟩, h'.sameCaches (hnext d ev)⟩

theorem step_sell (h : Holds base c orders d) (hc : c.Started a) (qty seq ts : UInt64)
    (horder : orders[oid]? = none) {c' : Cells}
    (hc' : c.set .bid false (lessened qty (c.get .bid false)) = c') (hproper : c'.Proper) :
    let ev := Chaos.mk seq ts .trade .bid (rung base .bid false) qty oid
    Steady base a d ev ∧ Holds base c' orders (next d ev) := by
  intro ev
  have hprice : rung base .bid false ≠ 0 := by
    have hlo := hbase.lo
    have hb := bid_toNat base false
    rw [if_neg Bool.false_ne_true] at hb
    intro hzero
    rw [hzero, UInt64.toNat_zero] at hb
    omega
  have h' := h.trade hbase hoid .bid false qty seq ts hprice horder hc' hproper
  have hcounters := d.entered_sell hoid hprice (h.orders ▸ horder) seq ts qty
  exact ⟨⟨⟨.trade, rfl, by simp⟩, ⟨c, orders, h, hc⟩, h'.within hbase, hcounters.buy,
    hcounters.sell⟩, h'.sameCaches (hnext d ev)⟩

end Holds

section

variable {base : UInt64} (hbase : Clear base)
  {next : FlashCrashDetector → SequencedEvent → FlashCrashDetector}
  (hnext : ∀ d ev, SameCaches (d.entered ev) (next d ev)) {oid : UInt64} (hpos : 0 < oid.toNat)
  (hlast : oid.toNat + 8 < 2 ^ 64)

theorem added_le (o : Option UInt64) (q : UInt64) :
    (o.getD 0 + q).toNat ≤ o.elim 0 UInt64.toNat + q.toNat := by
  rw [UInt64.toNat_add]
  cases o <;> exact Nat.mod_le _ _

theorem le_added {o : Option UInt64} {q : UInt64} (h : o.elim 0 UInt64.toNat + q.toNat < 2 ^ 64) :
    q.toNat ≤ (o.getD 0 + q).toNat := by
  have ho : (o.getD 0).toNat = o.elim 0 UInt64.toNat := by cases o <;> rfl
  rw [UInt64.toNat_add, ho, Nat.mod_eq_of_lt h]
  exact Nat.le_add_left _ _

theorem oid_ne_zero {c : UInt64} (h : 0 < c.toNat) : c ≠ 0 := by
  rintro rfl
  exact absurd h (lt_irrefl _)

include hbase hnext hpos hlast

theorem Holds.seeding {a b : Option UInt64} {orders : ExtTreeMap UInt64 OrderMeta}
    {d : FlashCrashDetector} (h : Holds base ⟨none, none, a, b⟩ orders d)
    (hroom : a.elim 0 UInt64.toNat + b.elim 0 UInt64.toNat + 8400 < 2 ^ 64)
    (hfree : ∀ i : UInt64, oid.toNat ≤ i.toNat → orders[i]? = none) (seq nowNs : UInt64) :
    Machine.Along (Steady base a) next d (seeding base oid seq nowNs) ∧
      ∃ orders' : ExtTreeMap UInt64 OrderMeta,
        Holds base ⟨some 5000, some 200, some (a.getD 0 + 3000), some (b.getD 0 + 200)⟩ orders'
          ((seeding base oid seq nowNs).foldl next d) ∧
        orders'[oid]? = some (⟨rung base .bid true, 5000, Side.bid.toU8⟩ : OrderMeta) ∧
        orders'[after oid 1]? = some (⟨rung base .ask true, 3000, Side.ask.toU8⟩ : OrderMeta) ∧
        ∀ i : UInt64, oid.toNat + 4 ≤ i.toNat → orders'[i]? = none := by
  have hid (k : ℕ) (hk : k ≤ 8) : (after oid k).toNat = oid.toNat + k := after_toNat (by omega)
  have hne (k : ℕ) (hk : k ≤ 8) : after oid k ≠ 0 := oid_ne_zero (by rw [hid k hk]; omega)
  have hdiff (i j : ℕ) (hi : i ≤ 8) (hj : j ≤ 8) (hij : i ≠ j) : after oid i ≠ after oid j :=
    after_ne hij (by omega) (by omega)
  have hask := added_le a 3000
  have h5000 : (5000 : UInt64).toNat = 5000 := rfl
  have h3000 : (3000 : UInt64).toNat = 3000 := rfl
  have h200 : (200 : UInt64).toNat = 200 := rfl
  obtain ⟨s0, h1⟩ := h.step_add hbase hnext (hne 0 (by omega)) (a := a) (.inl rfl) .bid true 5000 seq
    nowNs ⟨some 5000, none, a, b⟩
    (by simp only [Cells.qty, Cells.get, Option.elim_none, h5000]; omega) rfl h.proper
  obtain ⟨s1, h2⟩ := h1.step_add hbase hnext (hne 1 (by omega)) (.inr ⟨rfl, .inl rfl⟩) .ask true 3000
    (after seq 1) nowNs ⟨some 5000, none, some (a.getD 0 + 3000), b⟩
    (by simp only [Cells.qty, Cells.get, Option.elim_some, Option.elim_none, h5000, h3000]; omega) rfl
    (fun hnone => by cases hnone)
  obtain ⟨s2, h3⟩ := h2.step_add hbase hnext (hne 2 (by omega)) (.inr ⟨rfl, .inr rfl⟩) .bid false 200
    (after seq 2) nowNs ⟨some 5000, some 200, some (a.getD 0 + 3000), b⟩
    (by simp only [Cells.qty, Cells.get, Option.elim_some, Option.elim_none, h5000, h200]; omega) rfl
    (fun hnone => by cases hnone)
  obtain ⟨s3, h4⟩ := h3.step_add hbase hnext (hne 3 (by omega)) (.inr ⟨rfl, .inr rfl⟩) .ask false 200
    (after seq 3) nowNs
    ⟨some 5000, some 200, some (a.getD 0 + 3000), some (b.getD 0 + 200)⟩
    (by simp only [Cells.qty, Cells.get, Option.elim_some, h5000, h200]; omega) rfl
    (fun hnone => by cases hnone)
  refine ⟨⟨s0, s1, s2, s3, trivial⟩, _, h4, ?_, ?_, ?_⟩
  · show (_ : ExtTreeMap UInt64 OrderMeta)[after oid 0]? = _
    rw [FiniteMap.get_insert, if_neg (hdiff 0 3 (by omega) (by omega) (by omega)),
      FiniteMap.get_insert, if_neg (hdiff 0 2 (by omega) (by omega) (by omega)),
      FiniteMap.get_insert, if_neg (hdiff 0 1 (by omega) (by omega) (by omega)),
      FiniteMap.get_insert, if_pos rfl]
  · rw [FiniteMap.get_insert, if_neg (hdiff 1 3 (by omega) (by omega) (by omega)),
      FiniteMap.get_insert, if_neg (hdiff 1 2 (by omega) (by omega) (by omega)),
      FiniteMap.get_insert, if_pos rfl]
  · intro i hi
    have hi' (k : ℕ) (hk : k < 4) : i ≠ after oid k := by
      rintro rfl
      rw [hid k (by omega)] at hi
      omega
    rw [FiniteMap.get_insert, if_neg (hi' 3 (by omega)), FiniteMap.get_insert,
      if_neg (hi' 2 (by omega)), FiniteMap.get_insert, if_neg (hi' 1 (by omega)),
      FiniteMap.get_insert, if_neg (hi' 0 (by omega))]
    exact hfree i (by omega)

theorem Holds.pulling {a : Option UInt64} {u v : UInt64} {orders : ExtTreeMap UInt64 OrderMeta}
    {d : FlashCrashDetector} (h : Holds base ⟨some 5000, some 200, some u, some v⟩ orders d)
    (hu : u = a.getD 0 + 3000)
    (horder : orders[oid]? = some (⟨rung base .bid true, 5000, Side.bid.toU8⟩ : OrderMeta))
    (hnear : orders[after oid 1]? = some (⟨rung base .ask true, 3000, Side.ask.toU8⟩ : OrderMeta))
    (hfree : ∀ i : UInt64, oid.toNat + 4 ≤ i.toNat → orders[i]? = none) (seq nowNs : UInt64) :
    Steady base a d (pulling base oid seq nowNs) ∧ ∃ orders' : ExtTreeMap UInt64 OrderMeta,
      Holds base ⟨none, some 200, some u, some v⟩ orders' (next d (pulling base oid seq nowNs)) ∧
      orders'[after oid 1]? = some (⟨rung base .ask true, 3000, Side.ask.toU8⟩ : OrderMeta) ∧
      ∀ i : UInt64, oid.toNat + 4 ≤ i.toNat → orders'[i]? = none := by
  have hcancel : lessened 5000 (some 5000) = none := by decide
  obtain ⟨s4, h5⟩ := h.step_cancel hbase hnext (oid_ne_zero hpos) (a := a)
    (.inr ⟨rfl, .inr (congrArg some hu)⟩) .bid true 5000 5000 (after seq 4)
    (burstTs nowNs 0) (by decide) (UInt64.le_refl _) horder
    (congrArg (fun o => (⟨o, some 200, some u, some v⟩ : Cells)) hcancel) (fun hnone => by cases hnone)
  refine ⟨s4, _, h5, ?_, ?_⟩
  · have hother : after oid 1 ≠ oid :=
      after_ne (c := oid) (i := 1) (j := 0) (by omega) (by omega) (by omega)
    rw [OrderTracker.settle_get hother]
    exact hnear
  · intro i hi
    have hne : i ≠ oid := by
      rintro rfl
      omega
    rw [OrderTracker.settle_get hne]
    exact hfree i hi

theorem Holds.cutting (a : Option UInt64) {u v : UInt64} {orders : ExtTreeMap UInt64 OrderMeta}
    {d : FlashCrashDetector} (h : Holds base ⟨none, some 200, some u, some v⟩ orders d)
    (hu : 3000 ≤ u.toNat)
    (horder : orders[after oid 1]? = some (⟨rung base .ask true, 3000, Side.ask.toU8⟩ : OrderMeta))
    (hfree : ∀ i : UInt64, oid.toNat + 4 ≤ i.toNat → orders[i]? = none) (seq nowNs : UInt64)
    {cut : UInt64} (hcut : cut.toNat ≤ 2900) :
    Machine.Along (Steady base a) next d (cutting base oid seq nowNs cut) ∧
      ∃ orders' : ExtTreeMap UInt64 OrderMeta,
        Holds base ⟨none, some 200, some (u - cut), some v⟩ orders'
          ((cutting base oid seq nowNs cut).foldl next d) ∧
        ∀ i : UInt64, oid.toNat + 4 ≤ i.toNat → orders'[i]? = none := by
  have h1 : (after oid 1).toNat = oid.toNat + 1 := after_toNat (by omega)
  rw [Chaos.cutting]
  split_ifs with hpos'
  · have hne : ¬ cut = 0 := fun hz => absurd (hz ▸ hpos') (UInt64.lt_irrefl 0)
    have hle : cut ≤ u := UInt64.le_iff_toNat_le.mpr (by omega)
    have hleft : lessened cut (some u) = some (u - cut) := by
      have hmin : min cut u = cut := if_pos hle
      have hrest : ¬ u - cut = 0 := by
        intro hz
        have hnat := UInt64.toNat_sub_of_le u cut hle
        rw [hz, UInt64.toNat_zero] at hnat
        omega
      simp only [lessened, if_neg hne, hmin, if_neg hrest]
    have h3000 : (3000 : UInt64).toNat = 3000 := rfl
    obtain ⟨s5, h6⟩ := h.step_cancel hbase hnext (oid_ne_zero (by omega)) (a := a) (.inl rfl) .ask true
      3000 cut (after seq 5) (burstTs nowNs 1) hne (UInt64.le_iff_toNat_le.mpr (by omega))
      horder (congrArg (fun o => (⟨none, some 200, o, some v⟩ : Cells)) hleft)
      (fun hnone => by cases hnone)
    refine ⟨⟨s5, trivial⟩, _, h6, ?_⟩
    intro i hi
    have hother : i ≠ after oid 1 := by
      rintro rfl
      omega
    rw [OrderTracker.settle_get hother]
    exact hfree i hi
  · have hzero : cut = 0 := UInt64.le_antisymm (UInt64.not_lt.mp hpos')
      (UInt64.le_iff_toNat_le.mpr (Nat.zero_le _))
    rw [hzero, UInt64.sub_zero]
    exact ⟨trivial, orders, h, hfree⟩

/-- A trade takes 50 from the far bid. -/
theorem Holds.selling (a : Option UInt64) {x y : Option UInt64} {u v : UInt64}
    {orders : ExtTreeMap UInt64 OrderMeta} {d : FlashCrashDetector}
    (h : Holds base ⟨none, x, some u, some v⟩ orders d) (hxy : lessened 50 x = y)
    (hfree : ∀ i : UInt64, oid.toNat + 4 ≤ i.toNat → orders[i]? = none) (seq nowNs : UInt64) (n : ℕ)
    {k : ℕ} (hk : k < 4) :
    Steady base a d (selling base oid seq nowNs n k) ∧
      Holds base ⟨none, y, some u, some v⟩ orders (next d (selling base oid seq nowNs n k)) := by
  have hid : (after oid (k + 4)).toNat = oid.toNat + (k + 4) := after_toNat (by omega)
  exact h.step_sell hbase hnext (oid_ne_zero (by omega)) (.inl rfl) 50 (after seq (n + 4))
    (burstTs nowNs n) (hfree _ (by omega))
    (congrArg (fun o => (⟨none, o, some u, some v⟩ : Cells)) hxy) (fun hnone => by cases hnone)

/-- Up to the second trade. -/
theorem Holds.selling2 (a : Option UInt64) {u v : UInt64} {orders : ExtTreeMap UInt64 OrderMeta}
    {d : FlashCrashDetector} (h : Holds base ⟨none, some 200, some u, some v⟩ orders d)
    (hfree : ∀ i : UInt64, oid.toNat + 4 ≤ i.toNat → orders[i]? = none) (seq nowNs : UInt64) (n : ℕ) :
    Machine.Along (Steady base a) next d (selling2 base oid seq nowNs n) ∧
      Holds base ⟨none, some 100, some u, some v⟩ orders
        ((selling2 base oid seq nowNs n).foldl next d) := by
  obtain ⟨s0, h1⟩ := h.selling hbase hnext hpos hlast a (y := some 150) (by decide) hfree seq nowNs n
    (k := 0) (by omega)
  obtain ⟨s1, h2⟩ := h1.selling hbase hnext hpos hlast a (y := some 100) (by decide) hfree seq nowNs
    (n + 1) (k := 1) (by omega)
  exact ⟨⟨s0, s1, trivial⟩, h2⟩

/-- A whole step but for its last trade. -/
theorem Holds.burst {a b : Option UInt64} {orders : ExtTreeMap UInt64 OrderMeta}
    {d : FlashCrashDetector} (h : Holds base ⟨none, none, a, b⟩ orders d)
    (hroom : a.elim 0 UInt64.toNat + b.elim 0 UInt64.toNat + 8400 < 2 ^ 64)
    (hfree : ∀ i : UInt64, oid.toNat ≤ i.toNat → orders[i]? = none) (seq nowNs : UInt64)
    {cut : UInt64} (hcut : cut.toNat ≤ 2900) :
    let d₁ := (Chaos.seeding base oid seq nowNs).foldl next d
    let d₂ := next d₁ (Chaos.pulling base oid seq nowNs)
    Machine.Along (Steady base a) next d (Chaos.seeding base oid seq nowNs) ∧
      Steady base a d₁ (Chaos.pulling base oid seq nowNs) ∧
      Machine.Along (Steady base a) next d₂ (Chaos.burst base oid seq nowNs cut) ∧
      (∃ orders' : ExtTreeMap UInt64 OrderMeta,
        Holds base ⟨some 5000, some 200, some (a.getD 0 + 3000), some (b.getD 0 + 200)⟩ orders' d₁) ∧
      ∃ orders' : ExtTreeMap UInt64 OrderMeta,
        Holds base ⟨none, some 50, some (a.getD 0 + 3000 - cut), some (b.getD 0 + 200)⟩ orders'
          ((Chaos.burst base oid seq nowNs cut).foldl next d₂) ∧
        ∀ i : UInt64, oid.toNat + 4 ≤ i.toNat → orders'[i]? = none := by
  have h3000 : (3000 : UInt64).toNat = 3000 := rfl
  have hask : (3000 : UInt64).toNat ≤ (a.getD 0 + 3000).toNat := le_added (by omega)
  obtain ⟨along₁, orders₁, h1, hfirst, hsecond, hfree₁⟩ :=
    h.seeding hbase hnext hpos hlast hroom hfree seq nowNs
  obtain ⟨s4, orders₂, h2, hsecond₂, hfree₂⟩ :=
    h1.pulling hbase hnext hpos hlast rfl hfirst hsecond hfree₁ seq nowNs
  obtain ⟨along₃, orders₃, h3, hfree₃⟩ :=
    h2.cutting hbase hnext hpos hlast a hask hsecond₂ hfree₂ seq nowNs hcut
  let n := if 0 < cut then 2 else 1
  obtain ⟨along₄, h4⟩ := h3.selling2 hbase hnext hpos hlast a hfree₃ seq nowNs n
  obtain ⟨s5, h5⟩ := h4.selling hbase hnext hpos hlast a (y := some 50) (by decide) hfree₃ seq nowNs
    (n + 2) (k := 2) (by omega)
  refine ⟨along₁, s4, ?_, ⟨orders₁, h1⟩, orders₃, ?_, hfree₃⟩
  · rw [Chaos.burst, Machine.along_append]
    refine ⟨along₃, ?_⟩
    rw [Machine.along_append]
    exact ⟨along₄, s5, trivial⟩
  · rw [Chaos.burst, List.foldl_append, List.foldl_append]
    exact h5

end

/-- Between two steps: no bids, at most `room` on the ask side, and no order under an id to come. -/
def Rested (base : UInt64) (room : ℕ) (oid : UInt64) (d : FlashCrashDetector) : Prop :=
  ∃ (a b : Option UInt64) (orders : ExtTreeMap UInt64 OrderMeta),
    Holds base ⟨none, none, a, b⟩ orders d ∧ a.elim 0 UInt64.toNat + b.elim 0 UInt64.toNat ≤ room ∧
    ∀ i : UInt64, oid.toNat ≤ i.toNat → orders[i]? = none

/-- A step keeps the mid within all along, and rests again. -/
theorem Rested.batch {base : UInt64} (hbase : Clear base)
    {next : FlashCrashDetector → SequencedEvent → FlashCrashDetector}
    (hnext : ∀ d ev, SameCaches (d.entered ev) (next d ev)) {oid : UInt64} (hpos : 0 < oid.toNat)
    (hlast : oid.toNat + 8 < 2 ^ 64) {room : ℕ} (hroom : room + 8400 < 2 ^ 64)
    {d : FlashCrashDetector} (h : Rested base room oid d) (seq nowNs : UInt64) {cut : UInt64}
    (hcut : cut.toNat ≤ 2900) :
    Machine.Along (fun d ev => ∃ a, Steady base a d ev) next d (batch base oid seq nowNs cut) ∧
      Rested base (room + 3200) (after oid 8) ((batch base oid seq nowNs cut).foldl next d) := by
  obtain ⟨a, b, orders, h0, hqty, hfree⟩ := h
  obtain ⟨along₁, s4, along₂, -, orders', h1, hfree'⟩ :=
    h0.burst hbase hnext hpos hlast (by omega) hfree seq nowNs hcut
  obtain ⟨s8, h2⟩ := h1.selling hbase hnext hpos hlast a (y := none) (by decide) hfree' seq nowNs
    ((if 0 < cut then 2 else 1) + 3) (k := 3) (by omega)
  have hall : Machine.Along (Steady base a) next d (Chaos.batch base oid seq nowNs cut) := by
    rw [batch_eq, Machine.along_append, Machine.along_append, List.foldl_append, List.foldl_cons]
    exact ⟨⟨along₁, s4, along₂⟩, s8, trivial⟩
  have h3000 : (3000 : UInt64).toNat = 3000 := rfl
  have h200 : (200 : UInt64).toNat = 200 := rfl
  have hask := added_le a 3000
  have hleft : (3000 : UInt64).toNat ≤ (a.getD 0 + 3000).toNat := le_added (by omega)
  have hfar := added_le b 200
  have hless := UInt64.toNat_sub_of_le (a.getD 0 + 3000) cut (UInt64.le_iff_toNat_le.mpr (by omega))
  have hid : (after oid 8).toNat = oid.toNat + 8 := after_toNat (by omega)
  refine ⟨hall.imp fun _ _ hs => ⟨a, hs⟩, some (a.getD 0 + 3000 - cut), some (b.getD 0 + 200), orders',
    ?_, ?_, ?_⟩
  · rw [batch_eq, List.foldl_append, List.foldl_append, List.foldl_cons]
    exact h2
  · simp only [Option.elim_some]
    omega
  · intro i hi
    exact hfree' i (by omega)

end FlashCrashDetector

end Flowlab.Chaos
