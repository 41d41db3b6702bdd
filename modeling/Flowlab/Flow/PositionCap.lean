import Flowlab.Flow.CircuitBreaker

namespace Flowlab.Flow

open Framework

/-- An allowed intent with what the venue has not filled of it yet. -/
structure SentOrder where
  instrumentId : UInt32
  side : OrderSide
  left : Nat

/-- The summed remainder of the sent orders of one instrument and side. -/
def unfilled (sent : List SentOrder) (instrumentId : UInt32) (side : OrderSide) : Nat :=
  (sent.map fun o => if o.instrumentId = instrumentId ∧ o.side = side then o.left else 0).sum

/-- A breaker with the orders that went out through it. `overlap` is the largest quantity of an
instrument and side that was still unfilled when a further intent of both was allowed. -/
structure Desk where
  breaker : CircuitBreaker
  sent : List SentOrder
  overlap : UInt32 → OrderSide → Nat

inductive DeskAct where
  | check (now : Int) (intent : Intent)
  | fill (k : Nat) (qty : UInt32) (priceTicks : UInt64)

namespace Desk

def start (cfg : BreakerConfig) (now : Int) : Desk :=
  ⟨CircuitBreaker.new cfg now, [], fun _ _ => 0⟩

/-- The desk after an allowed intent. -/
def send (d : Desk) (b : CircuitBreaker) (intent : Intent) : Desk where
  breaker := b
  sent := d.sent ++ [⟨intent.instrumentId, intent.side, intent.qty.toNat⟩]
  overlap i s :=
    if i = intent.instrumentId ∧ s = intent.side then max (d.overlap i s) (unfilled d.sent i s)
    else d.overlap i s

/-- A fill is reported only for an order that went out, on its instrument and side, and for no more
than is left of it. -/
def step (d : Desk) : DeskAct → Option Desk
  | .check now intent =>
    match d.breaker.check now intent with
    | (b, .allow) => some (d.send b intent)
    | (b, .block _) => some { d with breaker := b }
  | .fill k qty priceTicks =>
    match d.sent[k]? with
    | none => none
    | some o =>
      if qty.toNat ≤ o.left then
        some { d with
          breaker := d.breaker.recordFill ⟨o.instrumentId, o.side, qty, priceTicks⟩
          sent := d.sent.set k { o with left := o.left - qty.toNat } }
      else none

def run (d : Desk) (acts : List DeskAct) : Option Desk := acts.foldlM step d

end Desk

theorem toInt_add_small {a b : Int64} (hlo : -2 ^ 63 ≤ a.toInt + b.toInt)
    (hhi : a.toInt + b.toInt < 2 ^ 63) : (a + b).toInt = a.toInt + b.toInt := by
  rw [Int64.toInt_add]
  exact Int.bmod_eq_of_le (by norm_num; omega) (by norm_num; omega)

theorem toInt_abs {a : Int64} (h : -2 ^ 63 < a.toInt) : a.abs.toInt = a.toInt.natAbs := by
  refine BitVec.toInt_abs_eq_natAbs_of_ne_intMin ?_
  intro hmin
  have hval : a.toInt = (BitVec.intMin 64).toInt := congrArg BitVec.toInt hmin
  rw [show (BitVec.intMin 64).toInt = -2 ^ 63 from by decide] at hval
  omega

/-- A quantity with the sign of its side. -/
def OrderSide.signed (side : OrderSide) (q : Int) : Int :=
  match side with
  | .buy => q
  | .sell => -q

theorem toInt_signedQty (side : OrderSide) (qty : UInt32) :
    (signedQty side qty).toInt = side.signed qty.toNat := by
  have hlt := qty.toNat_lt
  cases side with
  | buy => exact Int64.toInt_ofNat_of_lt (by omega)
  | sell => exact Int64.toInt_neg_ofNat_of_le (by omega)

theorem unfilled_append (sent : List SentOrder) (o : SentOrder) (i : UInt32) (s : OrderSide) :
    unfilled (sent ++ [o]) i s =
      unfilled sent i s + (if o.instrumentId = i ∧ o.side = s then o.left else 0) := by
  simp [unfilled]

/-- Filling part of one order takes it off its own instrument and side only. -/
theorem unfilled_set {sent : List SentOrder} {k : Nat} {o : SentOrder} (ho : sent[k]? = some o)
    {q : Nat} (hq : q ≤ o.left) (i : UInt32) (s : OrderSide) :
    unfilled (sent.set k { o with left := o.left - q }) i s +
      (if o.instrumentId = i ∧ o.side = s then q else 0) = unfilled sent i s := by
  induction sent generalizing k with
  | nil => simp at ho
  | cons x sent ih =>
    cases k with
    | zero =>
      have hx : x = o := by simpa using ho
      subst hx
      simp only [unfilled, List.set_cons_zero, List.map_cons, List.sum_cons]
      split_ifs <;> omega
    | succ k =>
      have hrec := ih (k := k) (by simpa using ho)
      simp only [unfilled, List.set_cons_succ, List.map_cons, List.sum_cons] at hrec ⊢
      omega

namespace CircuitBreaker

theorem latch_position (b : CircuitBreaker) (r : HaltReason) (i : UInt32) :
    (b.latch r).1.position i = b.position i := by
  simp only [latch]
  cases b.reason <;> rfl

theorem takeToken_position (b : CircuitBreaker) (now : Int) (i : UInt32) :
    (b.takeToken now).1.position i = b.position i := by
  simp only [takeToken]
  cases b.cfg.maxOrdersPerSec <;> rfl

theorem takeToken_cfg (b : CircuitBreaker) (now : Int) : (b.takeToken now).1.cfg = b.cfg := by
  simp only [takeToken]
  cases b.cfg.maxOrdersPerSec <;> rfl

theorem latch_cfg (b : CircuitBreaker) (r : HaltReason) : (b.latch r).1.cfg = b.cfg := by
  simp only [latch]
  cases b.reason <;> rfl

/-- A check moves no position, and allows only what the cap allows. -/
theorem check_spec (b : CircuitBreaker) (now : Int) (intent : Intent) :
    (b.check now intent).1.cfg = b.cfg ∧
    (∀ i, (b.check now intent).1.position i = b.position i) ∧
    ((b.check now intent).2 = .allow → b.overPosition intent = false) := by
  have hc := b.takeToken_cfg now
  have hp := b.takeToken_position now
  have hover : (b.takeToken now).1.overPosition intent = b.overPosition intent := by
    simp only [overPosition, hc, hp]
  have hlatch (r : HaltReason) : ((b.takeToken now).1.latch r).1.cfg = b.cfg ∧
      (∀ i, ((b.takeToken now).1.latch r).1.position i = b.position i) ∧
      (((b.takeToken now).1.latch r).2 = .allow → b.overPosition intent = false) := by
    refine ⟨(latch_cfg _ r).trans hc, fun i => (latch_position _ r i).trans (hp i), ?_⟩
    intro h
    simp only [latch] at h
    cases hr : (b.takeToken now).1.reason <;> rw [hr] at h <;> simp at h
  cases hr : b.haltReason with
  | some r =>
    rw [check_halted hr]
    exact ⟨rfl, fun _ => rfl, fun h => absurd h (by simp)⟩
  | none =>
    simp only [check, hr]
    split_ifs with h1 h2
    · exact hlatch _
    · exact hlatch _
    · exact hlatch _
    · exact hlatch _
    · exact ⟨hc, hp, fun _ => hover ▸ Bool.eq_false_iff.mpr h2⟩

theorem recordFill_position (b : CircuitBreaker) (fill : Fill) (i : UInt32) :
    (b.recordFill fill).position i =
      if i = fill.instrumentId then b.position i + signedQty fill.side fill.qty else b.position i := by
  simp only [position, recordFill]
  rw [FiniteMap.get_insert]
  split_ifs with h
  · rw [h]
    rfl
  · rfl

/-- What the cap says of an allowed order while the sum stays in range. -/
theorem within_of_overPosition {b : CircuitBreaker} {intent : Intent} {m : Int64}
    (hcfg : b.cfg.maxPosition = some m) (h : b.overPosition intent = false)
    (hlo : -2 ^ 63 < (b.position intent.instrumentId).toInt + intent.side.signed intent.qty.toNat)
    (hhi : (b.position intent.instrumentId).toInt + intent.side.signed intent.qty.toNat < 2 ^ 63) :
    intent.side.signed (b.position intent.instrumentId).toInt + intent.qty.toNat ≤ m.toInt := by
  simp only [overPosition, hcfg, gt_iff_lt, decide_eq_false_iff_not, Int64.not_lt] at h
  have hsum : (b.position intent.instrumentId + signedQty intent.side intent.qty).toInt =
      (b.position intent.instrumentId).toInt + intent.side.signed intent.qty.toNat := by
    rw [toInt_add_small] <;> rw [toInt_signedQty] <;> omega
  rw [Int64.le_iff_toInt_le, toInt_abs (by omega), hsum] at h
  cases hs : intent.side <;> rw [hs] at h <;> simp only [OrderSide.signed] at h ⊢ <;> omega

end CircuitBreaker

namespace Desk

/-- The sums that bound a position stay 2^32 clear of the `i64` range. -/
def Room (m : Int64) (d : Desk) (i : UInt32) : Prop :=
  ∀ s, m.toInt + d.overlap i s + 2 ^ 32 ≤ 2 ^ 63

/-- On each side the position with everything still unfilled there exceeds the cap by no more than
the overlap. -/
structure Within (m : Int64) (i : UInt32) (d : Desk) : Prop where
  cfg : d.breaker.cfg.maxPosition = some m
  bound : d.Room m i → ∀ s : OrderSide,
    s.signed (d.breaker.position i).toInt + unfilled d.sent i s ≤ m.toInt + d.overlap i s

theorem within_start {m : Int64} (hm : 0 ≤ m.toInt) {cfg : BreakerConfig}
    (hcfg : cfg.maxPosition = some m) (now : Int) (i : UInt32) : (start cfg now).Within m i where
  cfg := hcfg
  bound _ s := by
    have hz : ((start cfg now).breaker.position i).toInt = 0 := by
      simp [start, CircuitBreaker.new, CircuitBreaker.position]
    rw [hz]
    cases s <;> simpa [OrderSide.signed, unfilled, start] using hm

theorem overlap_le_send (d : Desk) (b : CircuitBreaker) (intent : Intent) (i : UInt32)
    (s : OrderSide) : d.overlap i s ≤ (d.send b intent).overlap i s := by
  simp only [send]
  split_ifs
  · exact le_max_left _ _
  · exact le_refl _

/-- The position of an instrument lies within cap and overlap on both sides. -/
theorem Within.position {m : Int64} {i : UInt32} {d : Desk} (h : d.Within m i) (hr : d.Room m i)
    (s : OrderSide) : s.signed (d.breaker.position i).toInt ≤ m.toInt + d.overlap i s := by
  have := h.bound hr s
  omega

theorem within_send {m : Int64} {i : UInt32} {d : Desk} (h : d.Within m i) {b : CircuitBreaker}
    {intent : Intent} (hcfg : b.cfg = d.breaker.cfg)
    (hpos : ∀ i, b.position i = d.breaker.position i)
    (hover : d.breaker.overPosition intent = false) : (d.send b intent).Within m i := by
  refine ⟨by rw [send, hcfg]; exact h.cfg, ?_⟩
  intro hr s
  have hroom : d.Room m i := by
    intro s'
    have hle := overlap_le_send d b intent i s'
    have := hr s'
    omega
  have hold := h.bound hroom s
  have hbuy := h.position hroom .buy
  have hsell := h.position hroom .sell
  have hrb := hroom .buy
  have hrs := hroom .sell
  have hq := intent.qty.toNat_lt
  simp only [OrderSide.signed] at hbuy hsell
  simp only [send, hpos, unfilled_append]
  by_cases hi : i = intent.instrumentId ∧ s = intent.side
  · have hcap := CircuitBreaker.within_of_overPosition h.cfg hover
      (by rw [← hi.1]; cases intent.side <;> simp only [OrderSide.signed] <;> omega)
      (by rw [← hi.1]; cases intent.side <;> simp only [OrderSide.signed] <;> omega)
    rw [← hi.1, ← hi.2] at hcap
    rw [if_pos hi, if_pos ⟨hi.1.symm, hi.2.symm⟩]
    have hmax := le_max_right (d.overlap i s) (unfilled d.sent i s)
    push_cast
    omega
  · rw [if_neg hi, if_neg (fun hc => hi ⟨hc.1.symm, hc.2.symm⟩), Nat.add_zero]
    exact hold

theorem within_fill {m : Int64} {i : UInt32} {d : Desk} (h : d.Within m i) {k : Nat} {o : SentOrder}
    (ho : d.sent[k]? = some o) {qty : UInt32} (hq : qty.toNat ≤ o.left) (priceTicks : UInt64) :
    Within m i
      { d with
        breaker := d.breaker.recordFill ⟨o.instrumentId, o.side, qty, priceTicks⟩
        sent := d.sent.set k { o with left := o.left - qty.toNat } } := by
  refine ⟨h.cfg, ?_⟩
  intro hr s
  have hroom : d.Room m i := hr
  have hset := unfilled_set ho hq i s
  have hold := h.bound hroom s
  have hbuy := h.position hroom .buy
  have hsell := h.position hroom .sell
  have hrb := hroom .buy
  have hrs := hroom .sell
  have hlt := qty.toNat_lt
  simp only [OrderSide.signed] at hbuy hsell
  dsimp only
  rw [CircuitBreaker.recordFill_position]
  by_cases hi : i = o.instrumentId
  · subst hi
    have hsum : (d.breaker.position o.instrumentId + signedQty o.side qty).toInt =
        (d.breaker.position o.instrumentId).toInt + o.side.signed qty.toNat := by
      rw [toInt_add_small] <;> rw [toInt_signedQty] <;> cases o.side <;>
        simp only [OrderSide.signed] <;> omega
    rw [if_pos rfl, hsum]
    simp only [true_and] at hset
    generalize unfilled (d.sent.set k { o with left := o.left - qty.toNat }) o.instrumentId s = u
      at hset ⊢
    cases s <;> cases hs : o.side <;> rw [hs] at hset <;>
      simp only [reduceCtorEq, if_true, if_false] at hset <;>
      simp only [OrderSide.signed] at hold ⊢ <;> omega
  · rw [if_neg hi]
    rw [if_neg (fun hc => hi hc.1.symm), Nat.add_zero] at hset
    rw [hset]
    exact hold

theorem within_step {m : Int64} {i : UInt32} {d d' : Desk} (h : d.Within m i) {act : DeskAct}
    (hs : d.step act = some d') : d'.Within m i := by
  cases act with
  | check now intent =>
    obtain ⟨hc, hp, hallow⟩ := d.breaker.check_spec now intent
    simp only [step] at hs
    cases hd : d.breaker.check now intent with
    | mk b dec =>
      rw [hd] at hs hc hp hallow
      cases dec with
      | allow =>
        rw [← Option.some.inj hs]
        exact within_send h hc hp (hallow rfl)
      | block r =>
        rw [← Option.some.inj hs]
        refine ⟨hc ▸ h.cfg, ?_⟩
        intro hr s
        dsimp only
        rw [hp i]
        exact h.bound hr s
  | fill k qty priceTicks =>
    simp only [step] at hs
    cases ho : d.sent[k]? with
    | none =>
      rw [ho] at hs
      exact absurd hs (by simp)
    | some o =>
      rw [ho] at hs
      dsimp only at hs
      split_ifs at hs with hq
      rw [← Option.some.inj hs]
      exact within_fill h ho hq priceTicks

theorem within_run {m : Int64} {i : UInt32} {d d' : Desk} (h : d.Within m i) {acts : List DeskAct}
    (hs : d.run acts = some d') : d'.Within m i := by
  induction acts generalizing d with
  | nil => exact Option.some.inj hs ▸ h
  | cons act acts ih =>
    rw [run, List.foldlM_cons] at hs
    obtain ⟨d₁, h₁, hrest⟩ := Option.bind_eq_some_iff.mp hs
    exact ih (within_step h h₁) hrest

end Desk

/-- In every state a desk reaches, the position of an instrument exceeds the cap by at most the
quantity that was unfilled on the same side when a further intent was allowed; with one open order
at a time on each side the cap holds. -/
theorem position_within_overlap {m : Int64} (hm : 0 ≤ m.toInt) {cfg : BreakerConfig}
    (hcfg : cfg.maxPosition = some m) (now : Int) (acts : List DeskAct) {d : Desk}
    (hrun : (Desk.start cfg now).run acts = some d) (i : UInt32) (hroom : d.Room m i) :
    |(d.breaker.position i).toInt| ≤ m.toInt + max (d.overlap i .buy) (d.overlap i .sell) ∧
    ((∀ s, d.overlap i s = 0) → |(d.breaker.position i).toInt| ≤ m.toInt) := by
  have h := Desk.within_run (Desk.within_start hm hcfg now i) hrun
  have hbuy := h.position hroom .buy
  have hsell := h.position hroom .sell
  simp only [OrderSide.signed] at hbuy hsell
  refine ⟨abs_le.mpr ⟨?_, ?_⟩, ?_⟩
  · have := le_max_right (d.overlap i .buy) (d.overlap i .sell)
    omega
  · have := le_max_left (d.overlap i .buy) (d.overlap i .sell)
    omega
  · intro hz
    rw [hz .buy] at hbuy
    rw [hz .sell] at hsell
    exact abs_le.mpr ⟨by omega, by omega⟩

/-- A long position of 10 turned into a short one by a single order of 20. -/
theorem position_within_overlap_turn :
    ∃ d, (Desk.start ⟨none, some 10, none, none, 0, none, 0⟩ 0).run
      [.check 1 ⟨1, .buy, 10, 100⟩, .fill 0 10 100, .check 2 ⟨1, .sell, 20, 100⟩, .fill 1 20 100] =
        some d ∧ |(d.breaker.position 1).toInt| ≤ 10 := by
  obtain ⟨d, hd⟩ : ∃ d, (Desk.start ⟨none, some 10, none, none, 0, none, 0⟩ 0).run
      [.check 1 ⟨1, .buy, 10, 100⟩, .fill 0 10 100, .check 2 ⟨1, .sell, 20, 100⟩, .fill 1 20 100] =
        some d := ⟨_, rfl⟩
  have hover (s : OrderSide) : d.overlap 1 s = 0 := by
    have hmap := congrArg (Option.map fun d => d.overlap 1 s) hd
    rw [Option.map_some] at hmap
    rw [← Option.some.inj hmap]
    cases s <;> rfl
  refine ⟨d, hd, (position_within_overlap (m := 10) (by decide) rfl 0 _ hd 1 ?_).2 hover⟩
  intro s
  rw [hover s]
  decide

/-- Two intents of 10, allowed one after the other and then both filled, against a cap of 10. -/
theorem position_exceeds_cap :
    ∃ d, (Desk.start ⟨none, some 10, none, none, 0, none, 0⟩ 0).run
      [.check 1 ⟨1, .buy, 10, 100⟩, .check 2 ⟨1, .buy, 10, 100⟩, .fill 0 10 100, .fill 1 10 100] =
        some d ∧ ¬ |(d.breaker.position 1).toInt| ≤ 10 :=
  ⟨_, rfl, by decide⟩

end Flowlab.Flow
