import Flowlab.Chaos.Shadow

namespace Flowlab.Chaos

open Std Framework
open Flowlab.Core (Event EventType Side Level Order OrderBook OrderMeta added restingQty restingCount)

theorem addOrder_orders {b : OrderBook} {e : Event} {s : Side} (hs : Side.fromU8 e.side = some s) :
    (b.addOrder e).1.orders = b.orders.insert e.orderId ⟨e.orderId, e.price, e.qty, s⟩ := by
  simp only [OrderBook.addOrder, hs, OrderBook.setLevels_orders]

theorem addOrder_get {b : OrderBook} {e : Event} {s : Side} (hs : Side.fromU8 e.side = some s)
    (r : Side) (p : UInt64) :
    ((b.addOrder e).1.levels r)[p]? =
      if r = s ∧ p = e.price then added e.price e.qty (b.levels s)[e.price]?
      else (b.levels r)[p]? := by
  have hlev : (b.addOrder e).1.levels r =
      if r = s then (b.levels s).insert e.price
        { (b.levels s)[e.price]?.getD ⟨e.price, 0, 0⟩ with
          totalQty := ((b.levels s)[e.price]?.getD ⟨e.price, 0, 0⟩).totalQty + e.qty
          orderCount := ((b.levels s)[e.price]?.getD ⟨e.price, 0, 0⟩).orderCount + 1 }
      else b.levels r := by
    rw [← OrderBook.levels_setLevels]
    simp only [OrderBook.addOrder, hs]
    cases s <;> cases r <;> rfl
  rw [hlev]
  by_cases hr : r = s
  · rw [if_pos hr, OrderBook.insert_added _ _ _ rfl, hr]
    simp
  · rw [if_neg hr, if_neg (fun h => hr h.1)]

/-- The additions of an add stay within the machine words of the reference book. -/
def Fits (b : OrderBook) (e : Event) : Prop :=
  EventType.fromU8 e.eventType = some .orderAdd →
    ∀ s, Side.fromU8 e.side = some s → ∀ l, (b.levels s)[e.price]? = some l →
      l.totalQty.toNat + e.qty.toNat < 2 ^ 64 ∧ l.orderCount.toNat + 1 < 2 ^ 32

theorem anonymousUpdate_side (s : Side) (price qty : UInt64) :
    anonymousUpdate s.toU8 price qty = some ⟨s.toU8, price, qty⟩ := by
  cases s <;> rfl

namespace MiniBook

theorem onAdd_eq (m : MiniBook) {e : Event} (hid : e.orderId ≠ 0) {s : Side}
    (hs : Side.fromU8 e.side = some s) :
    m.onAdd e = { m with orderTracker :=
      ⟨m.orderTracker.orders.insert e.orderId ⟨e.price, e.qty, s.toU8⟩⟩ }.addQty s.toU8 e.price
        e.qty := by
  have hu := Flowlab.Core.Side.toU8_of_fromU8 hs
  simp only [onAdd, OrderTracker.onAdd, hu, anonymousUpdate_side, if_pos hid]

/-- Adding within the cap rewrites one entry. -/
theorem addQty_within (m : MiniBook) (side : UInt8) (price qty : UInt64)
    (h : ((m.book side).insert price ((m.book side)[price]?.getD 0 + qty)).size ≤
      m.maxBookLevels) :
    m.addQty side price qty =
      m.setBook side ((m.book side).insert price ((m.book side)[price]?.getD 0 + qty)) := by
  simp only [addQty]
  rw [pruneLevels_within h]

/-- The bounds of an add, read off the live orders. -/
theorem Shadows.fits {m : MiniBook} {b : OrderBook} (h : m.Shadows b) {e : Event}
    (ht : EventType.fromU8 e.eventType = some .orderAdd) {s : Side}
    (hs : Side.fromU8 e.side = some s) (hfit : Fits b e) :
    restingQty m.orderTracker.orders (s.isBid, e.price) + e.qty.toNat < 2 ^ 64 ∧
      restingCount m.orderTracker.orders (s.isBid, e.price) + 1 < 2 ^ 32 := by
  have hc := h.carries s e.price
  cases hl : (b.levels s)[e.price]? with
  | none =>
    rw [hl] at hc
    have hz := restingQty_zero hc
    have hn : restingCount m.orderTracker.orders (s.isBid, e.price) = 0 := hc
    have hlt := e.qty.toNat_lt
    omega
  | some l =>
    rw [hl] at hc
    obtain ⟨hq, hn, _⟩ := hc
    rw [← hq, ← hn]
    exact hfit ht s hs l hl

theorem Shadows.onAdd {m : MiniBook} {b : OrderBook} (h : m.Shadows b) {e : Event}
    (ht : EventType.fromU8 e.eventType = some .orderAdd) (hid : e.orderId ≠ 0) {s : Side}
    (hs : Side.fromU8 e.side = some s) (hpos : 0 < e.qty) (hnew : b.orders[e.orderId]? = none)
    (hfit : Fits b e) (hroom : ((b.addOrder e).1.levels s).size ≤ m.maxBookLevels) :
    (m.onAdd e).Shadows (b.addOrder e).1 := by
  have hagree := h.agrees
  have hmeta : m.orderTracker.orders[e.orderId]? = none := by rw [h.orders, hnew]; rfl
  have hsize : ((m.book s.toU8).insert e.price ((m.book s.toU8)[e.price]?.getD 0 + e.qty)).size =
      ((b.addOrder e).1.levels s).size := by
    apply FiniteMap.size_eq_of_dom
    intro p
    rw [FiniteMap.get_insert, addOrder_get hs]
    by_cases hp : p = e.price
    · rw [if_pos hp, if_pos ⟨rfl, hp⟩]
      cases (b.levels s)[e.price]? <;> simp [added]
    · rw [if_neg hp, if_neg (fun hc => hp hc.2), hagree s p, Option.map_eq_none_iff]
  rw [onAdd_eq m hid hs, addQty_within _ _ _ _ (by rw [book_withTracker, hsize]; exact hroom)]
  simp only [book_withTracker]
  have htr (t : ExtTreeMap UInt64 OrderMeta) (u : ExtTreeMap UInt64 UInt64) :
      (({ m with orderTracker := ⟨t⟩ } : MiniBook).setBook s.toU8 u).orderTracker.orders = t := by
    rw [setBook_tracker]
  have hplace (r : Side) (p : UInt64) :
      (⟨e.price, e.qty, s.toU8⟩ : OrderMeta).place = (r.isBid, p) ↔ r = s ∧ p = e.price :=
    place_eq_iff ⟨e.orderId, e.price, e.qty, s⟩ r p
  have hqty (a : Bool × UInt64) :
      restingQty (m.orderTracker.orders.insert e.orderId ⟨e.price, e.qty, s.toU8⟩) a =
        (if (⟨e.price, e.qty, s.toU8⟩ : OrderMeta).place = a then e.qty.toNat else 0) +
          restingQty m.orderTracker.orders a :=
    FiniteMap.total_insert_new _ _ _ _ hmeta
  have hcount (a : Bool × UInt64) :
      restingCount (m.orderTracker.orders.insert e.orderId ⟨e.price, e.qty, s.toU8⟩) a =
        (if (⟨e.price, e.qty, s.toU8⟩ : OrderMeta).place = a then 1 else 0) +
          restingCount m.orderTracker.orders a :=
    FiniteMap.total_insert_new _ _ _ _ hmeta
  obtain ⟨hq, hn⟩ := h.fits ht hs hfit
  refine ⟨?_, ?_, ?_, ?_⟩
  · intro j
    rw [htr, addOrder_orders hs, FiniteMap.get_insert, FiniteMap.get_insert]
    split_ifs
    · rfl
    · exact h.orders j
  · intro j o hj
    rw [htr, FiniteMap.get_insert] at hj
    split_ifs at hj
    · rw [← Option.some.inj hj]
      exact hpos
    · exact h.live j o hj
  · intro r p
    have hold := h.tallies r p
    rw [htr, hqty, book_setBook, book_withTracker]
    by_cases ha : r = s ∧ p = e.price
    · rw [if_pos ((hplace r p).mpr ha), if_pos ha.1, FiniteMap.get_insert, if_pos ha.2]
      rw [ha.1, ha.2] at hold ⊢
      rw [Nat.add_comm]
      exact tallies_more hold hpos hq
    · rw [if_neg (fun hp => ha ((hplace r p).mp hp)), Nat.zero_add]
      by_cases hr : r = s
      · rw [if_pos hr, FiniteMap.get_insert, if_neg (fun hp => ha ⟨hr, hp⟩), ← hr]
        exact hold
      · rw [if_neg hr]
        exact hold
  · intro r p
    have hold := h.carries r p
    rw [htr, hqty, hcount, addOrder_get hs]
    by_cases ha : r = s ∧ p = e.price
    · rw [if_pos ((hplace r p).mpr ha), if_pos ((hplace r p).mpr ha), if_pos ha]
      rw [ha.1, ha.2] at hold ⊢
      rw [Nat.add_comm e.qty.toNat, Nat.add_comm 1]
      exact Flowlab.Core.carries_added hold restingQty_zero _ _ hq hn
    · rw [if_neg (fun hp => ha ((hplace r p).mp hp)), if_neg (fun hp => ha ((hplace r p).mp hp)),
        if_neg ha, Nat.zero_add, Nat.zero_add]
      exact hold

end MiniBook

/-- No level of the reference book answers to the side and price the event carries. -/
def Unmatched (b : OrderBook) (e : Event) : Prop :=
  e.price = 0 ∨ ∀ s, Side.fromU8 e.side = some s → (b.levels s)[e.price]? = none

/-- A trade of a live order carries no price or the order's own; a cancel or trade of an unknown one
names no level of the book. -/
def Resolves (b : OrderBook) (e : Event) : Prop :=
  match EventType.fromU8 e.eventType, b.orders[e.orderId]? with
  | some .orderCancel, none => Unmatched b e
  | some .trade, none => Unmatched b e
  | some .trade, some o => e.price = 0 ∨ e.price = o.price
  | _, _ => True

/-- An add, cancel or trade of a referenced order on a legal side; adds and trades move something. -/
structure Regular (e : Event) : Prop where
  kind : EventType.fromU8 e.eventType = some .orderAdd ∨
    EventType.fromU8 e.eventType = some .orderCancel ∨ EventType.fromU8 e.eventType = some .trade
  referenced : OrderBook.Referenced e
  qty : EventType.fromU8 e.eventType = some .orderAdd ∨
    EventType.fromU8 e.eventType = some .trade → 0 < e.qty

instance (e : Event) : Decidable (Regular e) :=
  decidable_of_iff
    ((EventType.fromU8 e.eventType = some .orderAdd ∨
        EventType.fromU8 e.eventType = some .orderCancel ∨
        EventType.fromU8 e.eventType = some .trade) ∧
      (e.orderId ≠ 0 ∧ (e.side = 0 ∨ e.side = 1)) ∧
      (EventType.fromU8 e.eventType = some .orderAdd ∨
        EventType.fromU8 e.eventType = some .trade → 0 < e.qty))
    ⟨fun h => ⟨h.1, h.2.1, h.2.2⟩, fun h => ⟨h.kind, h.referenced, h.qty⟩⟩

theorem anonymousTrade_side {e : Event} {s : Side} (hs : Side.fromU8 e.side = some s) :
    ∃ a, OrderTracker.anonymousTrade e = some ⟨⟨s.toU8, e.price, e.qty⟩, a⟩ := by
  have hu := Flowlab.Core.Side.toU8_of_fromU8 hs
  simp only [OrderTracker.anonymousTrade, hu, anonymousUpdate_side]
  cases s
  · exact ⟨.sell, rfl⟩
  · exact ⟨.buy, rfl⟩

namespace MiniBook

/-- A cancel or trade of an unknown order hits whatever level its side and price name. -/
def strike (m : MiniBook) (s : Side) (e : Event) : MiniBook :=
  if e.price = 0 then m else m.subQty s.toU8 e.price e.qty

theorem onCancel_unknown {m : MiniBook} {e : Event} (hid : e.orderId ≠ 0) {s : Side}
    (hs : Side.fromU8 e.side = some s) (hm : m.orderTracker.orders[e.orderId]? = none) :
    m.onCancel e = m.strike s e := by
  have hu := Flowlab.Core.Side.toU8_of_fromU8 hs
  simp only [onCancel, OrderTracker.onCancel, if_pos hid, hm, strike, hu, anonymousUpdate_side]
  split_ifs <;> rfl

theorem onTrade_unknown {m : MiniBook} {e : Event} (hid : e.orderId ≠ 0) {s : Side}
    (hs : Side.fromU8 e.side = some s) (hm : m.orderTracker.orders[e.orderId]? = none) :
    (m.onTrade e).1 = m.strike s e := by
  obtain ⟨a, ha⟩ := anonymousTrade_side hs
  simp only [onTrade, OrderTracker.onTrade, if_pos hid, hm, ha, strike]
  split_ifs <;> rfl

theorem onCancel_known {m : MiniBook} {e : Event} (hid : e.orderId ≠ 0) {o : Order}
    (hm : m.orderTracker.orders[e.orderId]? = some o.toMeta) :
    m.onCancel e =
      { m with orderTracker := m.orderTracker.settle e.orderId o.toMeta (resolvedQty o.qty e.qty) }.subQty
        o.side.toU8 o.price (resolvedQty o.qty e.qty) := by
  simp only [onCancel, OrderTracker.onCancel, if_pos hid, hm]
  rfl

theorem onTrade_known {m : MiniBook} {e : Event} (hid : e.orderId ≠ 0) {o : Order}
    (hm : m.orderTracker.orders[e.orderId]? = some o.toMeta) :
    (m.onTrade e).1 =
      { m with orderTracker := m.orderTracker.settle e.orderId o.toMeta (resolvedQty o.qty e.qty) }.subQty
        o.side.toU8 (if e.price ≠ 0 then e.price else o.price) (resolvedQty o.qty e.qty) := by
  have hag : ∃ a, aggressorFromRestingSide o.toMeta.side = some a := by
    simp only [Order.toMeta]
    cases o.side
    · exact ⟨.sell, rfl⟩
    · exact ⟨.buy, rfl⟩
  obtain ⟨a, ha⟩ := hag
  simp only [onTrade, OrderTracker.onTrade, if_pos hid, hm, ha]
  rfl

theorem Shadows.strike_same {m : MiniBook} {b : OrderBook} (h : m.Shadows b) {e : Event} {s : Side}
    (hs : Side.fromU8 e.side = some s) (hun : Unmatched b e) : m.strike s e = m := by
  simp only [strike]
  split_ifs with hp
  · rfl
  · have hnone : (m.book s.toU8)[e.price]? = none := by
      rw [h.agrees s e.price, hun.resolve_left hp s hs]
      rfl
    simp only [subQty, hnone]

/-- A struck level shows less than the reference book, which ignores the event. -/
theorem Shadows.strike_parts {m : MiniBook} {b : OrderBook} (h : m.Shadows b) {e : Event} {s : Side}
    (hs : Side.fromU8 e.side = some s) (hun : ¬ Unmatched b e) : ¬ (m.strike s e).Agrees b := by
  intro hagree
  obtain ⟨hp, hlev⟩ := not_or.mp hun
  have hm : (m.book s.toU8)[e.price]? ≠ none := by
    intro hnone
    refine hlev (fun r hr => ?_)
    rw [hs] at hr
    rw [← Option.some.inj hr]
    exact Option.map_eq_none_iff.mp ((h.agrees s e.price).symm.trans hnone)
  obtain ⟨v, hv⟩ := Option.ne_none_iff_exists'.mp hm
  have hpos : 0 < v := by
    have ht := h.tallies s e.price
    rw [hv] at ht
    exact UInt64.lt_iff_toNat_lt.mpr (by rw [ht.1]; exact ht.2)
  have hafter := hagree s e.price
  rw [strike, if_neg hp, subQty_get, if_pos ⟨rfl, rfl⟩, ← h.agrees s e.price, hv] at hafter
  exact lessened_ne hpos e.qty hafter

theorem Shadows.known {m : MiniBook} {b : OrderBook} (h : m.Shadows b) {i : UInt64} {o : Order}
    (ho : b.orders[i]? = some o) : m.orderTracker.orders[i]? = some o.toMeta ∧ 0 < o.qty := by
  have hm : m.orderTracker.orders[i]? = some o.toMeta := by rw [h.orders, ho]; rfl
  exact ⟨hm, h.live i o.toMeta hm⟩

/-- A cancel of an unknown order: the reference book ignores it. -/
theorem Shadows.cancel_unknown {m : MiniBook} {b : OrderBook} (h : m.Shadows b) {e : Event}
    (hid : e.orderId ≠ 0) {s : Side} (hs : Side.fromU8 e.side = some s)
    (ho : b.orders[e.orderId]? = none) : m.onCancel e = m.strike s e ∧ (b.cancelOrder e).1 = b := by
  have hm : m.orderTracker.orders[e.orderId]? = none := by rw [h.orders, ho]; rfl
  refine ⟨onCancel_unknown hid hs hm, ?_⟩
  simp only [OrderBook.cancelOrder, ho]

theorem Shadows.trade_unknown {m : MiniBook} {b : OrderBook} (h : m.Shadows b) {e : Event}
    (hid : e.orderId ≠ 0) {s : Side} (hs : Side.fromU8 e.side = some s)
    (ho : b.orders[e.orderId]? = none) :
    (m.onTrade e).1 = m.strike s e ∧ (b.executeTrade e).1 = b := by
  have hm : m.orderTracker.orders[e.orderId]? = none := by rw [h.orders, ho]; rfl
  refine ⟨onTrade_unknown hid hs hm, ?_⟩
  simp only [OrderBook.executeTrade, ho]

/-- A trade printed at another price leaves the order's own level as it was. -/
theorem Shadows.trade_parts {m : MiniBook} {b : OrderBook} (h : m.Shadows b) {e : Event}
    (hid : e.orderId ≠ 0) (hpos : 0 < e.qty) {o : Order} (ho : b.orders[e.orderId]? = some o)
    (hp : e.price ≠ 0) (hne : e.price ≠ o.price) :
    ¬ (m.onTrade e).1.Agrees (b.executeTrade e).1 := by
  intro hagree
  obtain ⟨hm, hqty⟩ := h.known ho
  have hfill := resolvedQty_pos hqty e.qty
  have htaken := (h.takeFrom ho hfill (resolvedQty_le o.qty e.qty)).agrees o.side o.price
  have hafter := hagree o.side o.price
  have hcount := Flowlab.Core.restingCount_pos hm
  have hle := restingCount_le_restingQty h.live o.toMeta.place
  have hplace := (place_eq_iff o o.side o.price).mpr ⟨rfl, rfl⟩
  rw [hplace] at hcount hle
  have ht := h.tallies o.side o.price
  cases hv : (m.book o.side.toU8)[o.price]? with
  | none =>
    rw [hv] at ht
    have hz : restingQty m.orderTracker.orders (o.side.isBid, o.price) = 0 := ht
    omega
  | some v =>
    rw [hv] at ht
    have hvpos : 0 < v := UInt64.lt_iff_toNat_lt.mpr (by rw [ht.1]; exact ht.2)
    rw [onTrade_known hid hm, if_pos hp, executeTrade_live hpos ho, ← htaken, subQty_get,
      if_neg (fun hc => hne hc.2.symm), subQty_get, if_pos ⟨rfl, rfl⟩, book_withTracker, hv] at hafter
    exact lessened_ne hvpos _ hafter.symm

theorem Shadows.apply {m : MiniBook} {b : OrderBook} (h : m.Shadows b) {e : Event} (he : Regular e)
    (hnew : EventType.fromU8 e.eventType = some .orderAdd → b.orders[e.orderId]? = none)
    (hfit : Fits b e) (hroom : ∀ s, ((b.apply e).1.levels s).size ≤ m.maxBookLevels)
    (hres : Resolves b e) : (m.apply e).Shadows (b.apply e).1 := by
  obtain ⟨s, hs⟩ := OrderBook.side_of_referenced he.referenced
  have hid := he.referenced.1
  simp only [Resolves] at hres
  simp only [OrderBook.apply] at hroom
  simp only [MiniBook.apply, OrderBook.apply]
  rcases he.kind with ht | ht | ht
  · rw [ht] at hroom ⊢
    exact h.onAdd ht hid hs (he.qty (Or.inl ht)) (hnew ht) hfit (hroom s)
  · rw [ht] at hres ⊢
    cases ho : b.orders[e.orderId]? with
    | none =>
      rw [ho] at hres
      obtain ⟨hm, hb⟩ := h.cancel_unknown hid hs ho
      dsimp only
      rw [hm, h.strike_same hs hres, hb]
      exact h
    | some o =>
      obtain ⟨hm, hqty⟩ := h.known ho
      dsimp only
      rw [onCancel_known hid hm, cancelOrder_live ho]
      exact h.takeFrom ho (resolvedQty_pos hqty e.qty) (resolvedQty_le o.qty e.qty)
  · rw [ht] at hres ⊢
    cases ho : b.orders[e.orderId]? with
    | none =>
      rw [ho] at hres
      obtain ⟨hm, hb⟩ := h.trade_unknown hid hs ho
      dsimp only
      rw [hm, h.strike_same hs hres, hb]
      exact h
    | some o =>
      rw [ho] at hres
      obtain ⟨hm, hqty⟩ := h.known ho
      have hprice : (if e.price ≠ 0 then e.price else o.price) = o.price := by
        split_ifs with hp
        · exact hres.resolve_left hp
        · rfl
      dsimp only
      rw [onTrade_known hid hm, hprice, executeTrade_live (he.qty (Or.inr ht)) ho]
      exact h.takeFrom ho (resolvedQty_pos hqty e.qty) (resolvedQty_le o.qty e.qty)

/-- An event that does not resolve parts the books at once. -/
theorem Shadows.apply_parts {m : MiniBook} {b : OrderBook} (h : m.Shadows b) {e : Event}
    (he : Regular e) (hres : ¬ Resolves b e) : ¬ (m.apply e).Agrees (b.apply e).1 := by
  obtain ⟨s, hs⟩ := OrderBook.side_of_referenced he.referenced
  have hid := he.referenced.1
  simp only [Resolves] at hres
  simp only [MiniBook.apply, OrderBook.apply]
  rcases he.kind with ht | ht | ht
  · rw [ht] at hres
    exact absurd trivial hres
  · rw [ht] at hres ⊢
    cases ho : b.orders[e.orderId]? with
    | none =>
      rw [ho] at hres
      obtain ⟨hm, hb⟩ := h.cancel_unknown hid hs ho
      dsimp only
      rw [hm, hb]
      exact h.strike_parts hs hres
    | some o =>
      rw [ho] at hres
      exact absurd trivial hres
  · rw [ht] at hres ⊢
    cases ho : b.orders[e.orderId]? with
    | none =>
      rw [ho] at hres
      obtain ⟨hm, hb⟩ := h.trade_unknown hid hs ho
      dsimp only
      rw [hm, hb]
      exact h.strike_parts hs hres
    | some o =>
      rw [ho] at hres
      obtain ⟨hp, hne⟩ := not_or.mp hres
      exact h.trade_parts hid (he.qty (Or.inr ht)) ho hp hne

theorem apply_cap (m : MiniBook) (e : Event) : (m.apply e).maxBookLevels = m.maxBookLevels := by
  have hsub (c : MiniBook) (side : UInt8) (price qty : UInt64) :
      (c.subQty side price qty).maxBookLevels = c.maxBookLevels := by
    rw [subQty_eq, setBook_cap]
  simp only [MiniBook.apply]
  split
  · simp only [onAdd]
    split
    · exact setBook_cap _ _ _
    · rfl
  · simp only [onCancel]
    split
    · exact hsub _ _ _ _
    · rfl
  · simp only [onTrade]
    split
    · exact hsub _ _ _ _
    · rfl
  · rfl

end MiniBook

end Flowlab.Chaos
