import Flowlab.Framework.Halting
import Flowlab.Framework.FiniteMap
import Flowlab.Chaos.StormPoll

namespace Flowlab.Chaos

open Framework Rounding Writer
open Flowlab.Core (Event EventType Side SequencedEvent OrderBook Order)

/-- No order with an id from `n` on is live. -/
def FreshFrom (b : OrderBook) (n : ℕ) : Prop := ∀ id : UInt64, n ≤ id.toNat → b.orders[id]? = none

/-- No order is live. -/
def Idle (b : OrderBook) : Prop := ∀ id : UInt64, b.orders[id]? = none

/-- An add, applied, would take the id of no live order. -/
def AddsNew (b : OrderBook) (e : Event) : Prop :=
  e.eventType = EventType.orderAdd.toU8 → b.orders[e.orderId]? = none

abbrev applied (b : OrderBook) (e : Event) : OrderBook := (b.apply e).1

/-- The book that has applied all these events. -/
def bookOf (instrumentId : UInt32) (es : List SequencedEvent) : OrderBook :=
  (OrderBook.new instrumentId).run (es.map (·.event))

/-- Every add takes an id that is not live in the book of the events before it. -/
def AddsFresh (instrumentId : UInt32) (es : List SequencedEvent) : Prop :=
  Halting.Accepted AddsNew applied (OrderBook.new instrumentId) (es.map (·.event))

instance decidableAddsNew (b : OrderBook) (e : Event) : Decidable (AddsNew b e) :=
  inferInstanceAs (Decidable (_ → _))

instance decidableAddsFresh (instrumentId : UInt32) (es : List SequencedEvent) :
    Decidable (AddsFresh instrumentId es) :=
  Halting.decidableAccepted _ _ _ _

theorem idle_new (instrumentId : UInt32) : Idle (OrderBook.new instrumentId) :=
  fun id => by simp [OrderBook.new]

theorem Idle.freshFrom {b : OrderBook} (h : Idle b) (n : ℕ) : FreshFrom b n := fun id _ => h id

section

variable {b : OrderBook} {e : Event} {id : UInt64}

theorem addOrder_none (h : b.orders[id]? = none) (hid : id ≠ e.orderId) :
    (b.addOrder e).1.orders[id]? = none := by
  simp only [OrderBook.addOrder]
  cases Side.fromU8 e.side with
  | none => exact h
  | some side => rw [FiniteMap.get_insert, if_neg hid, OrderBook.setLevels_orders, h]

theorem cancelOrder_none (h : b.orders[id]? = none) : (b.cancelOrder e).1.orders[id]? = none := by
  simp only [OrderBook.cancelOrder]
  cases ho : b.orders[e.orderId]? with
  | none => exact h
  | some o =>
    have hid : id ≠ e.orderId := by
      rintro rfl
      rw [h] at ho
      exact absurd ho (by simp)
    dsimp only
    split_ifs
    · rw [OrderBook.deduct_orders_keep, FiniteMap.get_erase, if_neg hid, h]
    · rw [OrderBook.deduct_orders_keep, FiniteMap.get_insert, if_neg hid, h]

theorem executeTrade_none (h : b.orders[id]? = none) : (b.executeTrade e).1.orders[id]? = none := by
  simp only [OrderBook.executeTrade]
  cases ho : b.orders[e.orderId]? with
  | none => exact h
  | some o =>
    have hid : id ≠ e.orderId := by
      rintro rfl
      rw [h] at ho
      exact absurd ho (by simp)
    dsimp only
    split_ifs
    · rw [FiniteMap.get_erase, if_neg hid, OrderBook.deduct_orders_keep, h]
    · rw [FiniteMap.get_insert, if_neg hid, OrderBook.deduct_orders_keep, h]

/-- An event makes no order live but its own. -/
theorem apply_none (h : b.orders[id]? = none) (hid : OrderBook.Places e → id ≠ e.orderId) :
    (applied b e).orders[id]? = none := by
  simp only [OrderBook.Places] at hid
  simp only [applied, OrderBook.apply]
  cases ht : EventType.fromU8 e.eventType with
  | none => exact h
  | some t =>
    rw [ht] at hid
    cases t with
    | orderAdd => exact addOrder_none h (hid (.inl rfl))
    | orderCancel => exact cancelOrder_none h
    | orderModify => exact addOrder_none (cancelOrder_none h) (hid (.inr rfl))
    | trade => exact executeTrade_none h
    | bookSnapshot => exact h

end

/-- Where no id from `lo` on is live and the placing events rise from `lo`, every add is new. -/
theorem accepted_of_rises {b : OrderBook} {lo hi : ℕ} (hb : FreshFrom b lo)
    {es : List SequencedEvent} (h : Rises lo (addIds es) hi) :
    Halting.Accepted AddsNew applied b (es.map (·.event)) ∧
      FreshFrom (b.run (es.map (·.event))) hi := by
  induction es generalizing b lo with
  | nil =>
    refine ⟨trivial, ?_⟩
    intro id hid
    exact hb id (le_trans h.le hid)
  | cons e es ih =>
    by_cases hp : OrderBook.Places e.event
    · have hcons : addIds (e :: es) = e.event.orderId.toNat :: addIds es := by simp [addIds, hp]
      rw [hcons] at h
      have hb' : FreshFrom (applied b e.event) (e.event.orderId.toNat + 1) := by
        intro id hid
        refine apply_none (hb id ?_) ?_
        · have := h.1
          omega
        · rintro - rfl
          omega
      obtain ⟨hacc, hfresh⟩ := ih hb' h.2
      exact ⟨⟨fun _ => hb _ h.1, hacc⟩, hfresh⟩
    · have hcons : addIds (e :: es) = addIds es := by simp [addIds, hp]
      rw [hcons] at h
      have hb' : FreshFrom (applied b e.event) lo :=
        fun id hid => apply_none (hb id hid) (fun hc => absurd hc hp)
      obtain ⟨hacc, hfresh⟩ := ih hb' h
      refine ⟨⟨?_, hacc⟩, hfresh⟩
      intro hadd
      exact absurd (.inl (by rw [hadd]; rfl)) hp

theorem bookOf_append (instrumentId : UInt32) (es fs : List SequencedEvent) :
    bookOf instrumentId (es ++ fs) = (bookOf instrumentId es).run (fs.map (·.event)) := by
  simp only [bookOf, OrderBook.run, List.map_append, List.foldl_append]

theorem addsFresh_append {instrumentId : UInt32} {es fs : List SequencedEvent}
    (h : AddsFresh instrumentId es)
    (h' : Halting.Accepted AddsNew applied (bookOf instrumentId es) (fs.map (·.event))) :
    AddsFresh instrumentId (es ++ fs) := by
  rw [AddsFresh, List.map_append]
  exact (Halting.accepted_append _ _ _).mpr ⟨h, h'⟩

/-- The generator has ids left for its life, and none of them is live. -/
structure Generator.Supplied (g : Generator) (b : OrderBook) : Prop where
  bounded : g.Bounded
  room : g.nextOid.toNat + g.idsLeft < 2 ^ 64
  fresh : FreshFrom b g.nextOid.toNat

theorem spawn_nextOid (spec : StormSpec) (basePrice : UInt64) (restart : UInt32) :
    (spawnGenerator spec basePrice restart).nextOid.toNat ≤ 5000000 := by
  obtain ⟨kind, severity, durationNs, seed⟩ := spec
  cases kind with
  | phantomLiquidity => exact (by decide : (1000000 : UInt64).toNat ≤ 5000000)
  | quoteStuff => exact (by decide : (1500000 : UInt64).toNat ≤ 5000000)
  | spoof => exact (by decide : (1750000 : UInt64).toNat ≤ 5000000)
  | cancellationStorm => exact (by decide : (2000000 : UInt64).toNat ≤ 5000000)
  | momentumIgnition => exact (by decide : (3000000 : UInt64).toNat ≤ 5000000)
  | flashCrash => exact (by decide : (4000000 : UInt64).toNat ≤ 5000000)
  | latencyArbitrage => exact (by decide : (5000000 : UInt64).toNat ≤ 5000000)

/-- A generator that is spawned while no order is live. -/
theorem spawn_supplied (spec : StormSpec) (basePrice : UInt64) (restart : UInt32) {b : OrderBook}
    (hb : Idle b) : (spawnGenerator spec basePrice restart).Supplied b := by
  have hbounded := spawn_bounded spec basePrice restart
  have hids := hbounded.idsLeft_le
  have hoid := spawn_nextOid spec basePrice restart
  exact ⟨hbounded, by omega, hb.freshFrom _⟩

/-- A step of an unfinished generator adds new orders only and leaves it supplied. -/
theorem Generator.Supplied.step {g : Generator} {b : OrderBook} (h : g.Supplied b)
    (nowNs baseSeq : UInt64) (hfin : g.finished = false) :
    Halting.Accepted AddsNew applied b ((g.step nowNs baseSeq).1.map (·.event)) ∧
      (g.step nowNs baseSeq).2.Supplied (b.run ((g.step nowNs baseSeq).1.map (·.event))) := by
  have hleft := g.step_idsLeft nowNs baseSeq hfin
  have hroom := h.room
  obtain ⟨hrises, hle⟩ := (g.step_batch nowNs baseSeq).ids (by omega)
  obtain ⟨hacc, hfresh⟩ := accepted_of_rises h.fresh hrises
  exact ⟨hacc, h.bounded.step nowNs baseSeq hfin, by omega, hfresh⟩

/-- The poll loop, after the events `hist` of the polls before. -/
structure PollLoop.Fresh (instrumentId : UInt32) (hist : List SequencedEvent) (s : PollLoop) :
    Prop where
  adds : AddsFresh instrumentId (hist ++ s.out)
  supplied : s.active.generator.Supplied (bookOf instrumentId (hist ++ s.out))

/-- A finished generator is only replaced while no order is live. -/
def PollLoop.ReplacedIdle (instrumentId : UInt32) (hist : List SequencedEvent) (s : PollLoop) :
    Prop :=
  s.active.generator.finished = true → Idle (bookOf instrumentId (hist ++ s.out))

theorem PollLoop.Fresh.turn {instrumentId : UInt32} {hist : List SequencedEvent}
    {basePrice nowNs : UInt64} {s x t : PollLoop} (h : s.Fresh instrumentId hist)
    (ht : s.turn basePrice nowNs = some (x, t)) (hx : x.ReplacedIdle instrumentId hist) :
    t.Fresh instrumentId hist := by
  obtain ⟨rfl, -, ⟨hfin, rfl⟩ | ⟨hfin, rfl⟩⟩ := turn_cases ht
  · exact ⟨h.adds, spawn_supplied _ _ _ (hx hfin)⟩
  · obtain ⟨hacc, hsup⟩ := h.supplied.step nowNs x.nextSeq hfin
    have hout : hist ++ (x.step nowNs).out =
        (hist ++ x.out) ++ (x.active.generator.step nowNs x.nextSeq).1 := by
      rw [List.append_assoc]
      rfl
    constructor
    · rw [hout]
      exact addsFresh_append h.adds hacc
    · rw [hout, bookOf_append]
      exact hsup

namespace StormOrchestrator

variable {fuel : ℕ}

/-- Through all these polls a finished generator is only replaced while no order is live. -/
def ReplacesIdle (instrumentId : UInt32) (fuel : ℕ) :
    List SequencedEvent → StormOrchestrator → List (UInt64 × UInt64) → Prop
  | _, _, [] => True
  | hist, o, (nowNs, baseSeq) :: ps =>
    (∀ s ∈ o.turns fuel nowNs baseSeq, s.ReplacedIdle instrumentId hist) ∧
      ∀ es o', o.poll fuel nowNs baseSeq = some (es, o') →
        ReplacesIdle instrumentId fuel (hist ++ es) o' ps

theorem polls_fresh (hfuel : 65 ≤ fuel) (instrumentId : UInt32) {hist : List SequencedEvent}
    {o : StormOrchestrator} (hadds : AddsFresh instrumentId hist)
    (hsup : ∀ a, o.active = some a → a.generator.Supplied (bookOf instrumentId hist))
    {ps : List (UInt64 × UInt64)} (hidle : ReplacesIdle instrumentId fuel hist o ps)
    {es : List SequencedEvent} {o' : StormOrchestrator} (h : o.polls fuel ps = some (es, o')) :
    AddsFresh instrumentId (hist ++ es) := by
  induction ps generalizing hist o es with
  | nil =>
    rw [← (Prod.mk.inj (Option.some.inj h)).1, List.append_nil]
    exact hadds
  | cons p ps ih =>
    obtain ⟨fs, o₁, hpoll, -, hcases⟩ := o.poll_cases hfuel p.1 p.2
    rw [polls, hpoll] at h
    obtain ⟨⟨gs, o₂⟩, hpolls, hr⟩ := Option.map_eq_some_iff.mp h
    obtain ⟨rfl, rfl⟩ := Prod.mk.inj hr
    rw [← List.append_assoc]
    rcases hcases with ⟨rfl, hnone, -⟩ | ⟨active, hact, rfl, hturns, hafter⟩
    · refine ih ?_ ?_ (hidle.2 [] o₁ hpoll) hpolls
      · rwa [List.append_nil]
      · intro a ha
        rw [hnone] at ha
        exact absurd ha (by simp)
    · have hstart : PollLoop.Fresh instrumentId hist ⟨active, [], p.2, 0⟩ :=
        ⟨by rwa [List.append_nil], by rw [List.append_nil]; exact hsup active hact⟩
      have hend : (o.pollLoop fuel active p.1 p.2).2.Fresh instrumentId hist :=
        Drain.drain_keeps (fun s x t hs ht hx => hs.turn ht hx) fuel hstart
          (fun x hx => hidle.1 x (hturns ▸ hx))
      refine ih hend.adds ?_ (hidle.2 _ o₁ hpoll) hpolls
      intro a ha
      rcases hafter with hnone | hsome
      · rw [hnone] at ha
        exact absurd ha (by simp)
      · rw [hsome] at ha
        rw [← Option.some.inj ha]
        exact hend.supplied

end StormOrchestrator

/-- What is appended leaves no order live where none was; this costs nothing. -/
def KeepsIdle (_ _ : ℕ) (_ : Pen) (es : List SequencedEvent) (_ : Pen) : Prop :=
  ∀ b : OrderBook, Idle b → Idle (b.run (es.map (·.event)))

theorem keepsIdle_additive : Additive KeepsIdle where
  refl _ _ _ := fun _ hb => hb
  trans {n k n' k' s t u es fs} h h' := by
    intro b hb
    rw [OrderBook.run, List.map_append, List.foldl_append]
    exact h' _ (h b hb)

/-- The program leaves no order live where none was. -/
abbrev Tidy {α : Type} (m : Write α) : Prop := Appends Pen.out KeepsIdle 0 0 m

section

variable {α β : Type}

theorem tidy_of_out {m : Write α} (h : ∀ p, (m p).2.out = p.out) : Tidy m := by
  intro p
  exact ⟨[], by rw [h, List.append_nil], fun _ hb => hb⟩

theorem tidy_bind {m : Write α} {f : α → Write β} (hm : Tidy m) (hf : ∀ a, Tidy (f a)) :
    Tidy (m >>= f) :=
  Appends.bind keepsIdle_additive hm (fun p => hf (m p).1)

theorem tidy_range {f : ℕ → Write PUnit} (hf : ∀ i, Tidy (f i)) (c : ℕ) :
    Tidy ((List.range c).forM f) :=
  Appends.forM keepsIdle_additive hf (List.range c)

theorem tidy_push {et : EventType} (het : ¬ (et = .orderAdd ∨ et = .orderModify)) (side : Side)
    (price qty oid : UInt64) : Tidy (Write.push et side price qty oid) := by
  intro p
  refine ⟨[mk p.seq p.ts et side price qty oid], rfl, ?_⟩
  intro b hb id
  refine apply_none (hb id) ?_
  intro hp
  have hids := addIds_mk p.seq p.ts et side price qty oid
  rw [if_neg het] at hids
  simp [addIds, hp] at hids

theorem fromU8_toU8 (side : Side) : Side.fromU8 side.toU8 = some side := by
  cases side <;> rfl

/-- An order added and cancelled in full is gone. -/
theorem idle_addCancel {b : OrderBook} (hb : Idle b) (seq seq' ts ts' : UInt64) (side : Side)
    (price qty oid : UInt64) :
    Idle (b.run ([mk seq ts .orderAdd side price qty oid,
      mk seq' ts' .orderCancel side price qty oid].map (·.event))) := by
  intro id
  let e := (mk seq ts .orderAdd side price qty oid).event
  let c := (mk seq' ts' .orderCancel side price qty oid).event
  have hadd : (b.addOrder e).1.orders = b.orders.insert oid ⟨oid, price, qty, side⟩ := by
    have hs : Side.fromU8 e.side = some side := fromU8_toU8 side
    simp only [OrderBook.addOrder, hs, OrderBook.setLevels_orders]
    rfl
  have hlive : (b.addOrder e).1.orders[c.orderId]? = some ⟨oid, price, qty, side⟩ := by
    rw [hadd, FiniteMap.get_insert]
    exact if_pos rfl
  have hfull : c.qty = 0 ∨ qty ≤ c.qty := .inr (UInt64.le_refl qty)
  show ((b.addOrder e).1.cancelOrder c).1.orders[id]? = none
  simp only [OrderBook.cancelOrder, hlive, if_pos hfull, OrderBook.deduct_orders_keep]
  rw [FiniteMap.get_erase]
  split_ifs with hid
  · rfl
  · have hne : ¬ id = oid := hid
    rw [hadd, FiniteMap.get_insert, if_neg hne, hb id]

theorem tidy_addCancel (side : Side) (price qty gap : UInt64) : Tidy (addCancel side price qty gap) := by
  intro p
  refine ⟨[mk p.seq p.ts .orderAdd side price qty p.nextOid,
    mk (p.seq + 1) (satAdd64 p.ts (gap / 2)) .orderCancel side price qty p.nextOid], ?_, ?_⟩
  · exact List.append_assoc p.out [_] [_]
  · exact fun b hb => idle_addCancel hb _ _ _ _ _ _ _ _

end

theorem PhantomLiquidityGenerator.tidy_cycle (g : PhantomLiquidityGenerator) : Tidy g.cycle := by
  refine tidy_bind (tidy_of_out (quiet_boolP _).out) ?_
  intro isBid
  refine tidy_bind (tidy_of_out (quiet_nextBelow _).out) ?_
  intro off
  refine tidy_bind (tidy_of_out (quiet_nextBelow _).out) ?_
  intro qty
  exact tidy_addCancel _ _ _ _

theorem SpoofGenerator.tidy_cycle (g : SpoofGenerator) : Tidy g.cycle := by
  refine tidy_bind (tidy_of_out (quiet_boolP _).out) ?_
  intro isBid
  refine tidy_bind (tidy_of_out (quiet_nextBelow _).out) ?_
  intro off
  exact tidy_addCancel _ _ _ _

theorem QuoteStuffGenerator.tidy_cancel (g : QuoteStuffGenerator) (dt : UInt64) (side : Side) :
    Tidy (g.cancel dt side) := by
  refine tidy_bind (tidy_of_out (quiet_nextBelow _).out) ?_
  intro off
  refine tidy_bind (tidy_of_out fun _ => rfl) ?_
  intro oid
  refine tidy_bind (tidy_push (by decide) _ _ _ _) ?_
  intro _
  exact tidy_of_out (quiet_wait _).out

theorem QuoteStuffGenerator.tidy_trade (g : QuoteStuffGenerator) (dt : UInt64) (i : ℕ) :
    Tidy (g.trade dt i) := by
  refine tidy_bind (tidy_of_out fun _ => rfl) ?_
  intro oid
  refine tidy_bind (tidy_push (by decide) _ _ _ _) ?_
  intro _
  refine tidy_bind (tidy_of_out (quiet_wait _).out) ?_
  intro _
  exact tidy_range (fun _ => g.tidy_cancel dt _) _

/-- The kinds of storm that leave no order behind. -/
def ChaosKind.LeavesNone (k : ChaosKind) : Prop :=
  k = .phantomLiquidity ∨ k = .quoteStuff ∨ k = .spoof

def Generator.LeavesNone : Generator → Prop
  | phantomLiquidity _ => True
  | quoteStuff _ => True
  | spoof _ => True
  | _ => False

theorem spawn_leavesNone {spec : StormSpec} (h : spec.kind.LeavesNone) (basePrice : UInt64)
    (restart : UInt32) : (spawnGenerator spec basePrice restart).LeavesNone := by
  obtain ⟨kind, severity, durationNs, seed⟩ := spec
  obtain rfl | rfl | rfl := h
  · trivial
  · trivial
  · trivial

theorem Tidy.idle {α : Type} {m : Write α} (h : Tidy m) (rng : DetRng) (oid seq ts : UInt64)
    {b : OrderBook} (hb : Idle b) :
    Idle (b.run ((m ⟨rng, oid, seq, ts, []⟩).2.out.map (·.event))) := by
  obtain ⟨es, hes, hidle⟩ := h ⟨rng, oid, seq, ts, []⟩
  rw [hes, List.nil_append]
  exact hidle b hb

theorem Generator.LeavesNone.step {g : Generator} (h : g.LeavesNone) (nowNs baseSeq : UInt64)
    {b : OrderBook} (hb : Idle b) :
    (g.step nowNs baseSeq).2.LeavesNone ∧
      Idle (b.run ((g.step nowNs baseSeq).1.map (·.event))) := by
  cases g with
  | phantomLiquidity g =>
    exact ⟨trivial, (tidy_range (fun _ => g.tidy_cycle) _).idle g.rng g.nextOid baseSeq nowNs hb⟩
  | quoteStuff g =>
    exact ⟨trivial, (tidy_range (g.tidy_trade _) _).idle g.rng g.nextOid baseSeq nowNs hb⟩
  | spoof g =>
    exact ⟨trivial, (tidy_range (fun _ => g.tidy_cycle) _).idle g.rng g.nextOid baseSeq nowNs hb⟩
  | _ => exact absurd h id

/-- A storm of such a kind, after the events `hist` of the polls before. -/
structure PollLoop.Tidied (instrumentId : UInt32) (hist : List SequencedEvent) (s : PollLoop) :
    Prop where
  kind : s.active.spec.kind.LeavesNone
  leaves : s.active.generator.LeavesNone
  idle : Idle (bookOf instrumentId (hist ++ s.out))

theorem PollLoop.Tidied.turn {instrumentId : UInt32} {hist : List SequencedEvent}
    {basePrice nowNs : UInt64} {s x t : PollLoop} (h : s.Tidied instrumentId hist)
    (ht : s.turn basePrice nowNs = some (x, t)) :
    x.ReplacedIdle instrumentId hist ∧ t.Tidied instrumentId hist := by
  obtain ⟨rfl, -, ⟨-, rfl⟩ | ⟨-, rfl⟩⟩ := turn_cases ht
  · exact ⟨fun _ => h.idle, h.kind, spawn_leavesNone h.kind _ _, h.idle⟩
  · obtain ⟨hleaves, hidle⟩ := h.leaves.step nowNs x.nextSeq h.idle
    have hout : hist ++ (x.step nowNs).out =
        (hist ++ x.out) ++ (x.active.generator.step nowNs x.nextSeq).1 := by
      rw [List.append_assoc]
      rfl
    refine ⟨fun _ => h.idle, h.kind, hleaves, ?_⟩
    rw [hout, bookOf_append]
    exact hidle

namespace StormOrchestrator

variable {fuel : ℕ}

theorem replacesIdle_of_leavesNone (hfuel : 65 ≤ fuel) (instrumentId : UInt32)
    {hist : List SequencedEvent} {o : StormOrchestrator} (hidle : Idle (bookOf instrumentId hist))
    (ho : ∀ a, o.active = some a → a.spec.kind.LeavesNone ∧ a.generator.LeavesNone)
    (ps : List (UInt64 × UInt64)) : ReplacesIdle instrumentId fuel hist o ps := by
  induction ps generalizing hist o with
  | nil => trivial
  | cons p ps ih =>
    obtain ⟨fs, o₁, hpoll, -, hcases⟩ := o.poll_cases hfuel p.1 p.2
    have honly : ∀ es o', o.poll fuel p.1 p.2 = some (es, o') → es = fs ∧ o' = o₁ := by
      intro es o' h
      rw [hpoll] at h
      obtain ⟨rfl, rfl⟩ := Prod.mk.inj (Option.some.inj h)
      exact ⟨rfl, rfl⟩
    rcases hcases with ⟨rfl, hnone, hturns⟩ | ⟨active, hact, rfl, hturns, hafter⟩
    · constructor
      · rw [hturns]
        exact fun s hs => absurd hs (by simp)
      · intro es o' h
        obtain ⟨rfl, rfl⟩ := honly es o' h
        refine ih (by rwa [List.append_nil]) ?_
        intro a ha
        rw [hnone] at ha
        exact absurd ha (by simp)
    · have hstart : PollLoop.Tidied instrumentId hist ⟨active, [], p.2, 0⟩ :=
        ⟨(ho active hact).1, (ho active hact).2, by rwa [List.append_nil]⟩
      have hitems : ∀ s ∈ (o.pollLoop fuel active p.1 p.2).1, s.ReplacedIdle instrumentId hist :=
        Drain.drain_items (fun s x t hs ht => hs.turn ht) fuel hstart
      have hend : (o.pollLoop fuel active p.1 p.2).2.Tidied instrumentId hist :=
        Drain.drain_keeps (fun s x t hs ht _ => (hs.turn ht).2) fuel hstart (fun _ _ => trivial)
      constructor
      · rw [hturns]
        exact hitems
      · intro es o' h
        obtain ⟨rfl, rfl⟩ := honly es o' h
        refine ih hend.idle ?_
        intro a ha
        rcases hafter with hnone | hsome
        · rw [hnone] at ha
          exact absurd ha (by simp)
        · rw [hsome] at ha
          rw [← Option.some.inj ha]
          exact ⟨hend.kind, hend.leaves⟩

/-- Ids start over with every generator: a storm adds under new ids as long as a finished generator
is only replaced while no order is live, which storms of the three kinds that cancel all they add
never break. -/
theorem storm_adds_fresh (hfuel : 65 ≤ fuel) (instrumentId : UInt32) (basePrice : UInt64)
    (spec : StormSpec) (startNs : UInt64) (ps : List (UInt64 × UInt64)) :
    ∃ es o, polls fuel ((new basePrice).start spec startNs).1 ps = some (es, o) ∧
      (ReplacesIdle instrumentId fuel [] ((new basePrice).start spec startNs).1 ps →
        AddsFresh instrumentId es) ∧
      (spec.kind.LeavesNone →
        ReplacesIdle instrumentId fuel [] ((new basePrice).start spec startNs).1 ps) := by
  obtain ⟨es, o, hpolls, -, -⟩ := polls_hold (P := ActiveStorm.Sized basePrice)
    (fun _ _ _ _ h ht => (PollLoop.turn_sized h ht).2) hfuel rfl (start_sized basePrice spec startNs) ps
  have hempty : AddsFresh instrumentId [] := trivial
  have hbook : Idle (bookOf instrumentId []) := idle_new instrumentId
  refine ⟨es, o, hpolls, ?_, ?_⟩
  · intro hidle
    refine polls_fresh hfuel instrumentId hempty ?_ hidle hpolls
    intro a ha
    rw [← Option.some.inj ha]
    exact spawn_supplied _ _ _ hbook
  · intro hkind
    refine replacesIdle_of_leavesNone hfuel instrumentId hbook ?_ ps
    intro a ha
    rw [← Option.some.inj ha]
    refine ⟨hkind, spawn_leavesNone ?_ _ _⟩
    exact hkind

/-- A spoofing storm, polled twice. -/
theorem storm_adds_fresh_spoof :
    ∃ es o, polls 65 ((new 100).start ⟨.spoof, .fin (1 / 2), 20000000, 3⟩ 0).1
      [(0, 1), (15000000, 50)] = some (es, o) ∧ AddsFresh 1 es := by
  obtain ⟨es, o, hpolls, hfresh, hidle⟩ := storm_adds_fresh le_rfl 1 100
    ⟨.spoof, .fin (1 / 2), 20000000, 3⟩ 0 [(0, 1), (15000000, 50)]
  exact ⟨es, o, hpolls, hfresh (hidle (.inr (.inr rfl)))⟩

/-- A crash of one burst is over after its first step and replaced within the same poll; the top ask
it rested is only cut, and the next generator seeds its own under the same id. -/
theorem flashCrash_reuses_live_id :
    ∃ es o, polls 65 ((new 100000).start ⟨.flashCrash, .fin (7549747 / 8388608), 10000000, 7⟩
      1000000).1 [(1000000, 1)] = some (es, o) ∧ ¬ AddsFresh 1 es := by
  have hrun : (polls 65 ((new 100000).start ⟨.flashCrash, .fin (7549747 / 8388608), 10000000, 7⟩
      1000000).1 [(1000000, 1)]).map (fun r => decide (AddsFresh 1 r.1)) = some false := by
    decide +kernel
  obtain ⟨⟨es, o⟩, hpolls, hfresh⟩ := Option.map_eq_some_iff.mp hrun
  exact ⟨es, o, hpolls, of_decide_eq_false hfresh⟩

end StormOrchestrator

end Flowlab.Chaos
