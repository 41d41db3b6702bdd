import Flowlab.Core.Parity
import Flowlab.Framework.Machine

namespace Flowlab.Core

open Std Framework

/-- A resting order of the reference book. -/
@[ext] structure Order where
  orderId : UInt64
  price : UInt64
  qty : UInt64
  side : Side
  deriving DecidableEq, Repr

/-- The reference book of `orderbook.rs`: ordered maps from price to level, and the orders. -/
@[ext] structure OrderBook where
  instrumentId : UInt32
  bids : ExtTreeMap UInt64 Level
  asks : ExtTreeMap UInt64 Level
  orders : ExtTreeMap UInt64 Order

namespace OrderBook

def new (instrumentId : UInt32) : OrderBook := ⟨instrumentId, ∅, ∅, ∅⟩

def levels (b : OrderBook) : Side → ExtTreeMap UInt64 Level
  | .bid => b.bids
  | .ask => b.asks

def setLevels (b : OrderBook) (side : Side) (t : ExtTreeMap UInt64 Level) : OrderBook :=
  match side with
  | .bid => { b with bids := t }
  | .ask => { b with asks := t }

def addOrder (b : OrderBook) (e : Event) : OrderBook × Bool :=
  match Side.fromU8 e.side with
  | none => (b, false)
  | some side =>
    let order : Order := ⟨e.orderId, e.price, e.qty, side⟩
    let level := (b.levels side)[e.price]?.getD ⟨e.price, 0, 0⟩
    let level :=
      { level with totalQty := level.totalQty + e.qty, orderCount := level.orderCount + 1 }
    let b := b.setLevels side ((b.levels side).insert e.price level)
    ({ b with orders := b.orders.insert e.orderId order }, true)

/-- The level update at the end of `cancel_order` and inside `execute_trade`. -/
def deduct (b : OrderBook) (side : Side) (price qty : UInt64) (release : Bool) : OrderBook :=
  match (b.levels side)[price]? with
  | none => b
  | some level =>
    let level := { level with totalQty := satSub64 level.totalQty qty }
    if release then
      let level := { level with orderCount := satSub32 level.orderCount 1 }
      if level.orderCount = 0 then b.setLevels side ((b.levels side).erase price)
      else b.setLevels side ((b.levels side).insert price level)
    else b.setLevels side ((b.levels side).insert price level)

def cancelOrder (b : OrderBook) (e : Event) : OrderBook × Bool :=
  match b.orders[e.orderId]? with
  | none => (b, false)
  | some order =>
    if e.qty = 0 ∨ order.qty ≤ e.qty then
      ({ b with orders := b.orders.erase e.orderId }.deduct order.side order.price order.qty true,
        true)
    else
      ({ b with orders :=
          b.orders.insert e.orderId { order with qty := order.qty - e.qty } }.deduct
        order.side order.price e.qty false, true)

def modifyOrder (b : OrderBook) (e : Event) : OrderBook × Bool := (b.cancelOrder e).1.addOrder e

def executeTrade (b : OrderBook) (e : Event) : OrderBook × Bool :=
  match b.orders[e.orderId]? with
  | none => (b, false)
  | some order =>
    let oldQty := order.qty
    let order := { order with qty := satSub64 order.qty e.qty }
    let b := b.deduct order.side order.price (min e.qty oldQty) (decide (order.qty = 0))
    if order.qty = 0 then ({ b with orders := b.orders.erase e.orderId }, true)
    else ({ b with orders := b.orders.insert e.orderId order }, true)

def apply (b : OrderBook) (e : Event) : OrderBook × Bool :=
  match EventType.fromU8 e.eventType with
  | none => (b, false)
  | some .orderAdd => b.addOrder e
  | some .orderCancel => b.cancelOrder e
  | some .orderModify => b.modifyOrder e
  | some .trade => b.executeTrade e
  | some .bookSnapshot => (b, false)

def run (b : OrderBook) (es : List Event) : OrderBook := es.foldl (fun b e => (b.apply e).1) b

def canonicalL2Hash (x : Xxh3) (b : OrderBook) : UInt64 :=
  let h := x.hash domainTag
  let h := b.bids.toList.reverse.foldl (fun h l => foldLevel x h l.1 l.2.totalQty) h
  let h := x.withSeed sideSeparator h
  b.asks.toList.foldl (fun h l => foldLevel x h l.1 l.2.totalQty) h

end OrderBook

def Side.isBid : Side → Bool
  | .bid => true
  | .ask => false

theorem Side.toU8_of_fromU8 {v : UInt8} {s : Side} (h : Side.fromU8 v = some s) : v = s.toU8 := by
  simp only [Side.fromU8] at h
  split at h
  · rw [← Option.some.inj h]; rfl
  · rw [← Option.some.inj h]; rfl
  · exact absurd h (by simp)

@[simp] theorem Side.decide_toU8 (s : Side) : decide (s.toU8 = 0) = s.isBid := by
  cases s <;> rfl

/-- What the other books keep of an order. -/
def Order.toMeta (o : Order) : OrderMeta := ⟨o.price, o.qty, o.side.toU8⟩

namespace OrderBook

/-- The reference book files under each price what the abstract ladder files there, and knows the
same orders. -/
structure Shows (b : OrderBook) (k : Book) : Prop where
  sorted : ∀ s : Side, KeyedList.Sorted Level.price (ahead s.isBid) (k.side s.isBid)
  level : ∀ (s : Side) (p : UInt64), levelAt p (k.side s.isBid) = (b.levels s)[p]?
  orders : ∀ i : UInt64, k.orders[i]? = b.orders[i]?.map Order.toMeta

theorem shows_empty (instrumentId : UInt32) : Shows (new instrumentId) Book.empty where
  sorted s := by cases s <;> exact List.Pairwise.nil
  level s p := by cases s <;> simp [new, Book.empty, Book.side, Side.isBid, levels]
  orders i := by simp [new, Book.empty]

theorem levels_setLevels (b : OrderBook) (s r : Side) (t : ExtTreeMap UInt64 Level) :
    (b.setLevels s t).levels r = if r = s then t else b.levels r := by
  cases s <;> cases r <;> rfl

theorem setLevels_orders (b : OrderBook) (s : Side) (t : ExtTreeMap UInt64 Level) :
    (b.setLevels s t).orders = b.orders := by
  cases s <;> rfl

theorem side_alterSide (k : Book) (s r : Side) (p : UInt64) (f : Option Level → Option Level) :
    (k.alterSide s.isBid p f).side r.isBid =
      if r = s then KeyedList.alter Level.price (ahead s.isBid) p f (k.side s.isBid)
      else k.side r.isBid := by
  cases s <;> cases r <;> rfl

/-- Rewriting one entry of a price map follows the alteration of the ladder at that price. -/
theorem shows_setLevels {b : OrderBook} {k : Book} (h : Shows b k) (s : Side) (p : UInt64)
    {f : Option Level → Option Level} (hf : KeyedList.FilesUnder Level.price p f)
    {t : ExtTreeMap UInt64 Level}
    (ht : ∀ j : UInt64, t[j]? = if j = p then f (b.levels s)[p]? else (b.levels s)[j]?) :
    Shows (b.setLevels s t) (k.alterSide s.isBid p f) where
  sorted r := by
    rw [side_alterSide]
    split_ifs with hr
    · rw [hr]
      exact KeyedList.sorted_alter hf _ (h.sorted s)
    · exact h.sorted r
  level r j := by
    rw [side_alterSide, levels_setLevels]
    split_ifs with hr
    · have hl : levelAt j (KeyedList.alter Level.price (ahead s.isBid) p f (k.side s.isBid)) =
          if j = p then f (levelAt p (k.side s.isBid)) else levelAt j (k.side s.isBid) :=
        KeyedList.lookup_alter hf (k.side s.isBid) (h.sorted s) j
      rw [hl, ht j, h.level s p, h.level s j]
    · exact h.level r j
  orders i := by
    rw [Book.alterSide_orders, setLevels_orders]
    exact h.orders i

theorem shows_orders {b : OrderBook} {k : Book} (h : Shows b k)
    {m : ExtTreeMap UInt64 OrderMeta} {t : ExtTreeMap UInt64 Order}
    (hm : ∀ i : UInt64, m[i]? = t[i]?.map Order.toMeta) :
    Shows { b with orders := t } { k with orders := m } :=
  ⟨h.sorted, h.level, hm⟩

/-- What `add_order` makes of the price map of a side. -/
theorem insert_added (t : ExtTreeMap UInt64 Level) (price qty : UInt64) {l : Level}
    (hl : l = t[price]?.getD ⟨price, 0, 0⟩) (j : UInt64) :
    (t.insert price { l with totalQty := l.totalQty + qty, orderCount := l.orderCount + 1 })[j]? =
      if j = price then added price qty t[price]? else t[j]? := by
  rw [FiniteMap.get_insert, hl]
  split_ifs
  · cases t[price]? with
    | none => simp [added]
    | some l => rfl
  · rfl

/-- What a deduction makes of it. -/
theorem deduct_levels (b : OrderBook) (s : Side) (p q : UInt64) (release : Bool) :
    ∃ t : ExtTreeMap UInt64 Level, b.deduct s p q release = b.setLevels s t ∧
      ∀ j : UInt64, t[j]? =
        if j = p then deducted q release (b.levels s)[p]? else (b.levels s)[j]? := by
  simp only [deduct]
  cases hl : (b.levels s)[p]? with
  | none =>
    refine ⟨b.levels s, by cases s <;> rfl, ?_⟩
    intro j
    split_ifs with hj
    · rw [hj, hl]; rfl
    · rfl
  | some l =>
    dsimp only
    split_ifs with hr hz
    · exact ⟨_, rfl, fun j => by simp [FiniteMap.get_erase, deducted, hr, hz]⟩
    · exact ⟨_, rfl, fun j => by simp [FiniteMap.get_insert, deducted, hr, hz]⟩
    · exact ⟨_, rfl, fun j => by simp [FiniteMap.get_insert, deducted, hr]⟩

theorem shows_addOrder {b : OrderBook} {k : Book} (h : Shows b k) {M : Nat} {e : Event}
    (hid : e.orderId ≠ 0) {s : Side} (hs : Side.fromU8 e.side = some s)
    (hroom : (k.addOrder M e).2 = true) : Shows (b.addOrder e).1 (k.addOrder M e).1 := by
  have hu := Side.toU8_of_fromU8 hs
  simp only [Book.addOrder, hu, Side.decide_toU8] at hroom ⊢
  simp only [addOrder, hs]
  split_ifs at hroom with hfull
  rw [if_neg hfull, if_pos hid]
  have hset := shows_setLevels h s e.price (added_files e.price e.qty)
    (insert_added (b.levels s) e.price e.qty rfl)
  refine shows_orders hset ?_
  intro i
  rw [FiniteMap.get_insert, FiniteMap.get_insert]
  split_ifs
  · rfl
  · exact hset.orders i

theorem shows_deduct {b : OrderBook} {k : Book} (h : Shows b k) (s : Side) (p q : UInt64)
    (release : Bool) : Shows (b.deduct s p q release) (k.deductOn s.isBid p q release).1 := by
  obtain ⟨t, he, ht⟩ := deduct_levels b s p q release
  rw [he]
  exact shows_setLevels h s p (deducted_files p q release) ht

theorem get_toMeta {b : OrderBook} {k : Book} (h : Shows b k) {i : UInt64} {o : Order}
    (ho : b.orders[i]? = some o) : k.orders[i]? = some o.toMeta := by
  rw [h.orders, ho]
  rfl

theorem erase_toMeta {b : OrderBook} {k : Book} (h : Shows b k) (i j : UInt64) :
    (k.orders.erase i)[j]? = (b.orders.erase i)[j]?.map Order.toMeta := by
  rw [FiniteMap.get_erase, FiniteMap.get_erase]
  split_ifs
  · rfl
  · exact h.orders j

theorem insert_toMeta {b : OrderBook} {k : Book} (h : Shows b k) (i : UInt64) (o : Order)
    (j : UInt64) :
    (k.orders.insert i o.toMeta)[j]? = (b.orders.insert i o)[j]?.map Order.toMeta := by
  rw [FiniteMap.get_insert, FiniteMap.get_insert]
  split_ifs
  · rfl
  · exact h.orders j

theorem shows_cancelOrder {b : OrderBook} {k : Book} (h : Shows b k) {e : Event}
    (hid : e.orderId ≠ 0) : Shows (b.cancelOrder e).1 (k.cancelOrder e).1 := by
  simp only [cancelOrder, Book.cancelOrder, if_pos hid]
  cases ho : b.orders[e.orderId]? with
  | none =>
    have hk : k.orders[e.orderId]? = none := by rw [h.orders, ho]; rfl
    rw [hk]
    exact h
  | some o =>
    have hside : decide (o.toMeta.side = 0) = o.side.isBid := Side.decide_toU8 o.side
    rw [get_toMeta h ho]
    dsimp only
    rw [hside]
    by_cases hfull : e.qty = 0 ∨ o.qty ≤ e.qty
    · have hfull' : e.qty = 0 ∨ o.toMeta.qty ≤ e.qty := hfull
      rw [if_pos hfull, if_pos hfull']
      exact shows_deduct (shows_orders h (erase_toMeta h e.orderId)) _ _ _ _
    · have hfull' : ¬ (e.qty = 0 ∨ o.toMeta.qty ≤ e.qty) := hfull
      rw [if_neg hfull, if_neg hfull']
      exact shows_deduct (shows_orders h
        (insert_toMeta h e.orderId { o with qty := o.qty - e.qty })) _ _ _ _

theorem deduct_orders_keep (b : OrderBook) (s : Side) (p q : UInt64) (release : Bool) :
    (b.deduct s p q release).orders = b.orders := by
  simp only [deduct]
  cases (b.levels s)[p]? with
  | none => rfl
  | some l =>
    dsimp only
    split_ifs <;> exact setLevels_orders b s _

theorem deduct_orders (b : OrderBook) (t : ExtTreeMap UInt64 Order) (s : Side) (p q : UInt64)
    (release : Bool) :
    { b.deduct s p q release with orders := t } = ({ b with orders := t }).deduct s p q release := by
  have hlev : ({ b with orders := t } : OrderBook).levels s = b.levels s := by cases s <;> rfl
  have hset (u : ExtTreeMap UInt64 Level) :
      { b.setLevels s u with orders := t } = ({ b with orders := t }).setLevels s u := by
    cases s <;> rfl
  simp only [deduct, hlev]
  cases (b.levels s)[p]? with
  | none => rfl
  | some l =>
    dsimp only
    split_ifs <;> exact hset _

/-- What is left of a resting quantity after a fill, computed the two ways. -/
theorem residual_eq (q m : UInt64) : satSub64 m q = m - min q m := by
  apply UInt64.toNat_inj.mp
  rw [satSub64_toNat, UInt64.toNat_sub_of_le m _ (fill_le q m)]
  show _ = m.toNat - (if q ≤ m then q else m).toNat
  split_ifs with h
  · rfl
  · have := UInt64.lt_iff_toNat_lt.mp (UInt64.not_le.mp h)
    omega

theorem shows_executeTrade {b : OrderBook} {k : Book} (h : Shows b k) {e : Event}
    (hid : e.orderId ≠ 0) : Shows (b.executeTrade e).1 (k.trade e).1 := by
  simp only [executeTrade, Book.trade, if_neg hid]
  cases ho : b.orders[e.orderId]? with
  | none =>
    have hk : k.orders[e.orderId]? = none := by rw [h.orders, ho]; rfl
    rw [hk]
    exact h
  | some o =>
    have hside : decide (o.toMeta.side = 0) = o.side.isBid := Side.decide_toU8 o.side
    rw [get_toMeta h ho]
    simp only [residual_eq, hside, deduct_orders, deduct_orders_keep]
    by_cases hz : o.qty - min e.qty o.qty = 0
    · have hz' : ¬ o.toMeta.qty - min e.qty o.toMeta.qty ≠ 0 := not_not.mpr hz
      rw [if_pos hz, if_neg hz', decide_eq_true hz]
      exact shows_deduct (shows_orders h (erase_toMeta h e.orderId)) _ _ _ _
    · have hz' : o.toMeta.qty - min e.qty o.toMeta.qty ≠ 0 := hz
      rw [if_neg hz, if_pos hz', decide_eq_false hz]
      exact shows_deduct (shows_orders h
        (insert_toMeta h e.orderId { o with qty := o.qty - min e.qty o.qty })) _ _ _ _

/-- Events that place an order. -/
def Places (e : Event) : Prop :=
  EventType.fromU8 e.eventType = some .orderAdd ∨ EventType.fromU8 e.eventType = some .orderModify

/-- An order reference and a legal side byte. -/
def Referenced (e : Event) : Prop := e.orderId ≠ 0 ∧ (e.side = 0 ∨ e.side = 1)

theorem side_of_referenced {e : Event} (h : Referenced e) : ∃ s, Side.fromU8 e.side = some s := by
  rcases h.2 with h | h
  · exact ⟨.bid, by rw [h]; rfl⟩
  · exact ⟨.ask, by rw [h]; rfl⟩

theorem shows_apply {b : OrderBook} {k : Book} (h : Shows b k) {M : Nat} {e : Event}
    (hr : Referenced e) (hroom : Places e → (k.apply M e).2 = true) :
    Shows (b.apply e).1 (k.apply M e).1 := by
  obtain ⟨s, hs⟩ := side_of_referenced hr
  simp only [Places, Book.apply] at hroom
  simp only [apply, Book.apply]
  cases ht : EventType.fromU8 e.eventType with
  | none => exact h
  | some t =>
    rw [ht] at hroom
    cases t with
    | orderAdd => exact shows_addOrder h hr.1 hs (hroom (Or.inl rfl))
    | orderCancel => exact shows_cancelOrder h hr.1
    | orderModify =>
      exact shows_addOrder (shows_cancelOrder h hr.1) hr.1 hs (hroom (Or.inr rfl))
    | trade => exact shows_executeTrade h hr.1
    | bookSnapshot => exact h

theorem size_orders {b : OrderBook} {k : Book} (h : Shows b k) : k.orders.size = b.orders.size := by
  apply FiniteMap.size_eq_of_dom
  intro i
  rw [h.orders, Option.map_eq_none_iff]

end OrderBook

namespace HotOrderBook

/-- Whether an order is placed depends on the grid alone. -/
theorem addOrder_flag {M : Nat} {b : HotOrderBook M} (hg : b.GridInv) (e : Event) :
    (b.addOrder e).2 = (b.view.addOrder M e).2 := by
  have hspec := HalfBook.addLevel_spec (half_inv hg (decide (e.side = 0))) e.price e.qty
  simp only [addOrder, Book.addOrder, view_side]
  cases ha : (b.half (decide (e.side = 0))).addLevel (decide (e.side = 0)) e.price e.qty with
  | none => rw [if_pos (hspec.1 ha)]
  | some h =>
    obtain ⟨_, _, hroom, _⟩ := hspec.2 h ha
    rw [if_neg hroom]
    dsimp only
    split_ifs <;> rfl

theorem places_flag {M : Nat} {b : HotOrderBook M} (hi : b.Inv) {e : Event}
    (hp : OrderBook.Places e) : (b.apply e).2 = (b.view.apply M e).2 := by
  simp only [apply, Book.apply]
  rcases hp with hp | hp
  · rw [hp]
    exact addOrder_flag hi.grid e
  · rw [hp]
    obtain ⟨hc, hv, _⟩ := cancelOrder_refines hi e
    dsimp only
    rw [← hv]
    exact addOrder_flag hc.grid e

/-- Along a run without refusals the reference book shows what the hot book shows. -/
theorem run_shows {M : Nat} (hM : M < 2 ^ 32) (instrumentId : UInt32) (es : List Event)
    (href : ∀ e ∈ es, OrderBook.Referenced e)
    (hroom : ∀ p e, p ++ [e] <+: es → OrderBook.Places e →
      (((new M instrumentId).run p).apply e).2 = true)
    (hfit : ∀ p, p <+: es → ((OrderBook.new instrumentId).run p).orders.size ≤ 2 ^ 32) :
    ((new M instrumentId).run es).Inv ∧
      ((OrderBook.new instrumentId).run es).Shows ((new M instrumentId).run es).view := by
  induction es using List.reverseRecOn with
  | nil =>
    refine ⟨inv_new hM instrumentId, ?_⟩
    rw [run, List.foldl_nil, view_new]
    exact OrderBook.shows_empty instrumentId
  | append_singleton es e ih =>
    have hpre : es <+: es ++ [e] := List.prefix_append es [e]
    obtain ⟨hi, hs⟩ := ih (fun d hd => href d (List.mem_append_left _ hd))
      (fun p d hp => hroom p d (hp.trans hpre)) (fun p hp => hfit p (hp.trans hpre))
    have hstep := OrderBook.shows_apply (M := M) hs (href e (by simp)) (fun hp => by
      rw [← places_flag hi hp]
      exact hroom es e List.prefix_rfl hp)
    have hlast := hfit (es ++ [e]) List.prefix_rfl
    simp only [run, OrderBook.run, List.foldl_append, List.foldl_cons, List.foldl_nil]
      at hi hs hstep hlast ⊢
    rw [← OrderBook.size_orders hstep] at hlast
    obtain ⟨hinv, hview, _⟩ := apply_refines hi e hlast
    rw [hview]
    exact ⟨hinv, hstep⟩

end HotOrderBook

namespace OrderBook

/-- Ladder entries paired with their price, as a price map lists them. -/
def byPrice (l : List Level) : List (UInt64 × Level) := l.map (fun l => (l.price, l))

theorem mem_byPrice {isBid : Bool} {l : List Level}
    (hs : KeyedList.Sorted Level.price (ahead isBid) l) (r : UInt64 × Level) :
    r ∈ byPrice l ↔ levelAt r.1 l = some r.2 := by
  rw [levelAt, KeyedList.lookup_iff_mem hs]
  constructor
  · intro h
    obtain ⟨c, hc, rfl⟩ := List.mem_map.mp h
    exact ⟨hc, rfl⟩
  · intro hpair
    obtain ⟨hc, hk⟩ := hpair
    exact List.mem_map.mpr ⟨r.2, hc, Prod.ext hk rfl⟩

theorem sorted_byPrice {isBid : Bool} {l : List Level}
    (hs : KeyedList.Sorted Level.price (ahead isBid) l) :
    KeyedList.Sorted Prod.fst (ahead isBid) (byPrice l) :=
  List.pairwise_map.mpr hs

theorem sorted_toList (t : ExtTreeMap UInt64 Level) :
    KeyedList.Sorted Prod.fst (ahead false) t.toList := by
  refine List.Pairwise.imp ?_ t.ordered_keys_toList
  intro a b h
  exact decide_eq_true (compare_eq_lt.mp h)

theorem sorted_toList_reverse (t : ExtTreeMap UInt64 Level) :
    KeyedList.Sorted Prod.fst (ahead true) t.toList.reverse := by
  refine List.pairwise_reverse.mpr (List.Pairwise.imp ?_ t.ordered_keys_toList)
  intro a b h
  exact decide_eq_true (compare_eq_lt.mp h)

theorem asks_of_shows {b : OrderBook} {k : Book} (h : Shows b k) : byPrice k.asks = b.asks.toList := by
  have hs : KeyedList.Sorted Level.price (ahead false) k.asks := h.sorted .ask
  refine KeyedList.ext_mem (sorted_byPrice hs) (sorted_toList b.asks) ?_
  intro r
  rw [mem_byPrice hs, ExtTreeMap.mem_toList_iff_getElem?_eq_some]
  exact Eq.congr (h.level .ask r.1) rfl

theorem bids_of_shows {b : OrderBook} {k : Book} (h : Shows b k) :
    byPrice k.bids = b.bids.toList.reverse := by
  have hs : KeyedList.Sorted Level.price (ahead true) k.bids := h.sorted .bid
  refine KeyedList.ext_mem (sorted_byPrice hs) (sorted_toList_reverse b.bids) ?_
  intro r
  rw [mem_byPrice hs, List.mem_reverse, ExtTreeMap.mem_toList_iff_getElem?_eq_some]
  exact Eq.congr (h.level .bid r.1) rfl

theorem foldl_byPrice (x : Xxh3) (l : List Level) (h : UInt64) :
    (byPrice l).foldl (fun h r => foldLevel x h r.1 r.2.totalQty) h =
      l.foldl (fun h l => foldLevel x h l.price l.totalQty) h := by
  rw [byPrice, List.foldl_map]

end OrderBook

/-- What the hot book and the reference book have in common after the same events. -/
structure AgreeRef {M : Nat} (x : Xxh3) (b : HotOrderBook M) (c : OrderBook) : Prop where
  bids : OrderBook.byPrice b.bids.ladder = c.bids.toList.reverse
  asks : OrderBook.byPrice b.asks.ladder = c.asks.toList
  orders : ∀ orderId, b.orderMeta orderId = c.orders[orderId]?.map Order.toMeta
  hash : b.canonicalL2Hash x = c.canonicalL2Hash x

theorem agreeRef_of_shows {M : Nat} (x : Xxh3) {b : HotOrderBook M} {c : OrderBook}
    (h : c.Shows b.view) : AgreeRef x b c := by
  have hb : OrderBook.byPrice b.bids.ladder = c.bids.toList.reverse := OrderBook.bids_of_shows h
  have ha : OrderBook.byPrice b.asks.ladder = c.asks.toList := OrderBook.asks_of_shows h
  refine ⟨hb, ha, ?_, ?_⟩
  · intro orderId
    rw [← h.orders, HotOrderBook.view, OrderSlab.live_get]
    rfl
  · simp only [HotOrderBook.canonicalL2Hash, OrderBook.canonicalL2Hash, ← hb, ← ha,
      OrderBook.foldl_byPrice]

/-- The hot book and the reference book agree after every run of referenced events in which no
order is refused for lack of a level, as long as no more than 2^32 orders are live at a time. -/
theorem hotBook_agrees_orderBook {M : Nat} (hM : M < 2 ^ 32) (x : Xxh3) (instrumentId : UInt32)
    (es : List Event) (href : ∀ e ∈ es, OrderBook.Referenced e)
    (hroom : ∀ p e, p ++ [e] <+: es → OrderBook.Places e →
      (((HotOrderBook.new M instrumentId).run p).apply e).2 = true)
    (hfit : ∀ p, p <+: es → ((OrderBook.new instrumentId).run p).orders.size ≤ 2 ^ 32) :
    AgreeRef x ((HotOrderBook.new M instrumentId).run es)
      ((OrderBook.new instrumentId).run es) :=
  agreeRef_of_shows x (HotOrderBook.run_shows hM instrumentId es href hroom hfit).2

/-- An add and the modify that moves it to the other side, on a grid of two levels. -/
theorem hotBook_agrees_orderBook_short :
    AgreeRef ⟨fun _ => 3, fun _ h => h + 1⟩
      ((HotOrderBook.new 2 7).run [⟨0, 10, 5, 1, 7, 1, 0⟩, ⟨1, 9, 4, 1, 7, 3, 1⟩])
      ((OrderBook.new 7).run [⟨0, 10, 5, 1, 7, 1, 0⟩, ⟨1, 9, 4, 1, 7, 3, 1⟩]) := by
  refine hotBook_agrees_orderBook (by norm_num) _ _ _ ?_ ?_ ?_
  · simp [OrderBook.Referenced]
  · intro p e h
    apply Machine.steps_of_get _ h
    intro n _
    fin_cases n <;> decide
  · intro p h
    apply Machine.parts_of_get _ h
    decide

theorem OrderBook.orders_flood {n : Nat} :
    ((OrderBook.new 0).run (flood (n + 1))).orders[UInt64.ofNat (n + 1)]? =
      some ⟨UInt64.ofNat (n + 1), 1, UInt64.ofNat (n + 1), .bid⟩ := by
  have hrun : (OrderBook.new 0).run (flood (n + 1)) =
      (((OrderBook.new 0).run (flood n)).addOrder (floodEvent (UInt64.ofNat (n + 1)))).1 := by
    rw [flood_succ, run, List.foldl_append]
    rfl
  rw [hrun]
  simp only [addOrder, floodEvent, Side.fromU8]
  rw [FiniteMap.get_insert, if_pos rfl]

theorem referenced_flood {n : Nat} (hn : n ≤ 2 ^ 32 + 1) :
    ∀ e ∈ flood n, OrderBook.Referenced e := by
  intro e he
  obtain ⟨i, hi, rfl⟩ := List.mem_map.mp he
  have hlt := List.mem_range.mp hi
  exact ⟨floodId_ne (by omega), Or.inl rfl⟩

theorem take_flood (k n : Nat) : (flood n).take k = flood (min k n) := by
  rw [flood, flood, ← List.map_take, List.take_range]

theorem prefix_flood {n : Nat} {p : List Event} {e : Event} (h : p ++ [e] <+: flood n) :
    p.length < n ∧ p = flood p.length ∧ e = floodEvent (UInt64.ofNat (p.length + 1)) := by
  have hlen := h.length_le
  rw [length_flood, List.length_append, List.length_singleton] at hlen
  have htake : flood (p.length + 1) = p ++ [e] := by
    rw [List.prefix_iff_eq_take.mp h, take_flood, List.length_append, List.length_singleton,
      Nat.min_eq_left hlen]
  rw [flood_succ] at htake
  obtain ⟨hp, he⟩ := List.append_inj' htake rfl
  exact ⟨hlen, hp.symm, (List.cons.inj he).1.symm⟩

theorem HotOrderBook.unrefused_flood {n : Nat} (hn : n ≤ 2 ^ 32 + 1) (p : List Event) (e : Event)
    (h : p ++ [e] <+: flood n) : (((new 256 0).run p).apply e).2 = true := by
  obtain ⟨hlt, hp, he⟩ := prefix_flood h
  obtain ⟨hi, hroom, _⟩ := run_flood (n := p.length) (by omega)
  rw [← hp] at hi hroom
  rw [he]
  exact (addOrder_floodEvent hi.grid hroom (floodId_ne (by omega))).2

theorem orderMeta_flood_ne_orderBook {n : Nat} (hn : n = 2 ^ 32) :
    ((HotOrderBook.new 256 0).run (flood (n + 1))).orderMeta (UInt64.ofNat (n + 1)) ≠
      ((OrderBook.new 0).run (flood (n + 1))).orders[UInt64.ofNat (n + 1)]?.map Order.toMeta := by
  rw [HotOrderBook.orderMeta_flood hn, OrderBook.orders_flood]
  intro he
  have hq := congrArg (fun m => m.qty.toNat) (Option.some.inj he)
  change 1 = (UInt64.ofNat (n + 1)).toNat at hq
  rw [floodId_toNat (by omega)] at hq
  omega

/-- With 2^32 + 1 live orders the hot book and the reference book part, although every event is
referenced and none is refused. -/
theorem hotBook_parts_from_orderBook :
    (∀ e ∈ flood (2 ^ 32 + 1), OrderBook.Referenced e) ∧
    (∀ p e, p ++ [e] <+: flood (2 ^ 32 + 1) → OrderBook.Places e →
      (((HotOrderBook.new 256 0).run p).apply e).2 = true) ∧
    ¬ AgreeRef ⟨fun _ => 0, fun _ _ => 0⟩ ((HotOrderBook.new 256 0).run (flood (2 ^ 32 + 1)))
      ((OrderBook.new 0).run (flood (2 ^ 32 + 1))) :=
  ⟨referenced_flood (Nat.le_refl _),
    fun p e h _ => HotOrderBook.unrefused_flood (Nat.le_refl _) p e h,
    fun h => orderMeta_flood_ne_orderBook rfl (h.orders (UInt64.ofNat (2 ^ 32 + 1)))⟩

end Flowlab.Core
