import Flowlab.Chaos.OrderTracker
import Flowlab.Core.Ledger

namespace Flowlab.Chaos

open Std Framework
open Flowlab.Core (Event EventType Side Level Order OrderBook OrderMeta SequencedEvent satSub64 Carries
  added deducted restingQty restingCount)

/-! What a price map holds, and how one update changes it. -/

/-- What leaves an entry of the price map; an entry of 0 is dropped. -/
def lessened (qty : UInt64) : Option UInt64 → Option UInt64
  | none => none
  | some entry =>
    let left := entry - if qty = 0 then entry else min qty entry
    if left = 0 then none else some left

/-- An entry that accounts for a quantity of `q`: none for nothing. -/
def Tallies : Option UInt64 → Nat → Prop
  | none, q => q = 0
  | some v, q => v.toNat = q ∧ 0 < q

theorem tallies_more {o : Option UInt64} {q : Nat} (h : Tallies o q) {qty : UInt64} (hpos : 0 < qty)
    (hfit : q + qty.toNat < 2 ^ 64) : Tallies (some (o.getD 0 + qty)) (q + qty.toNat) := by
  have hqty : 0 < qty.toNat := UInt64.lt_iff_toNat_lt.mp hpos
  cases o with
  | none =>
    have hq : q = 0 := h
    refine ⟨?_, by omega⟩
    rw [hq, Option.getD_none, UInt64.zero_add, Nat.zero_add]
  | some v =>
    refine ⟨?_, by omega⟩
    rw [Option.getD_some, UInt64.toNat_add, h.1, Nat.mod_eq_of_lt hfit]

theorem tallies_lessened {o : Option UInt64} {q : Nat} (h : Tallies o q) {qty : UInt64}
    (hpos : 0 < qty) (hle : qty.toNat ≤ q) : Tallies (lessened qty o) (q - qty.toNat) := by
  have hqty : 0 < qty.toNat := UInt64.lt_iff_toNat_lt.mp hpos
  cases o with
  | none =>
    have hq : q = 0 := h
    omega
  | some v =>
    have hne : qty ≠ 0 := by
      intro hz
      rw [hz] at hqty
      exact absurd hqty (by decide)
    have hv : qty ≤ v := UInt64.le_iff_toNat_le.mpr (by rw [h.1]; exact hle)
    have hmin : min qty v = qty := if_pos hv
    have hsub := UInt64.toNat_sub_of_le v qty hv
    rw [h.1] at hsub
    simp only [lessened, if_neg hne, hmin]
    split_ifs with hz
    · have hz' := congrArg UInt64.toNat hz
      rw [hsub, UInt64.toNat_zero] at hz'
      exact hz'
    · refine ⟨hsub, ?_⟩
      rcases Nat.eq_zero_or_pos (q - qty.toNat) with h0 | h0
      · exact absurd (UInt64.toNat_inj.mp (by rw [hsub, h0]; rfl)) hz
      · exact h0

/-- An entry that is hit changes, whatever the quantity. -/
theorem lessened_ne {v : UInt64} (hv : 0 < v) (qty : UInt64) : lessened qty (some v) ≠ some v := by
  simp only [lessened]
  split_ifs with hq hz hz
  · simp
  · simp at hz
  · simp
  · intro he
    have hmin : min qty v = 0 := by
      have h := Option.some.inj he
      grind
    have hcase : min qty v = qty ∨ min qty v = v := by
      show (if qty ≤ v then qty else v) = qty ∨ (if qty ≤ v then qty else v) = v
      split_ifs <;> simp
    rcases hcase with hc | hc
    · exact hq (hc.symm.trans hmin)
    · rw [← hc, hmin] at hv
      exact absurd hv (by decide)

namespace MiniBook

theorem book_setBook (m : MiniBook) (s r : Side) (t : ExtTreeMap UInt64 UInt64) :
    (m.setBook s.toU8 t).book r.toU8 = if r = s then t else m.book r.toU8 := by
  cases s <;> cases r <;> rfl

theorem setBook_tracker (m : MiniBook) (side : UInt8) (t : ExtTreeMap UInt64 UInt64) :
    (m.setBook side t).orderTracker = m.orderTracker := by
  simp only [setBook]
  split_ifs <;> rfl

theorem setBook_cap (m : MiniBook) (side : UInt8) (t : ExtTreeMap UInt64 UInt64) :
    (m.setBook side t).maxBookLevels = m.maxBookLevels := by
  simp only [setBook]
  split_ifs <;> rfl

theorem setBook_self (m : MiniBook) (side : UInt8) : m.setBook side (m.book side) = m := by
  simp only [setBook, book]
  split_ifs <;> rfl

/-- A subtraction rewrites one entry. -/
theorem subQty_eq (m : MiniBook) (side : UInt8) (price qty : UInt64) :
    m.subQty side price qty =
      m.setBook side (FiniteMap.put (m.book side) price (lessened qty (m.book side)[price]?)) := by
  simp only [subQty]
  cases he : (m.book side)[price]? with
  | none =>
    have hput := FiniteMap.put_self (m.book side) price
    rw [he] at hput
    rw [lessened, hput, setBook_self]
  | some entry =>
    dsimp only [lessened]
    by_cases hz : entry - (if qty = 0 then entry else min qty entry) = 0
    · rw [if_pos hz, if_pos hz]
      rfl
    · rw [if_neg hz, if_neg hz]
      rfl

theorem subQty_get (m : MiniBook) (s r : Side) (price qty p : UInt64) :
    ((m.subQty s.toU8 price qty).book r.toU8)[p]? =
      if r = s ∧ p = price then lessened qty (m.book s.toU8)[price]? else (m.book r.toU8)[p]? := by
  rw [subQty_eq, book_setBook]
  by_cases hr : r = s
  · rw [if_pos hr, FiniteMap.get_put, hr]
    simp
  · rw [if_neg hr, if_neg (fun h => hr h.1)]

/-- Nothing is evicted from a map within the cap. -/
theorem pruneLevels_within {t : ExtTreeMap UInt64 UInt64} {side : UInt8} {cap : Nat}
    (h : t.size ≤ cap) : pruneLevels t side cap = t := by
  simp only [pruneLevels]
  cases t.size with
  | zero => rfl
  | succ n => rw [pruneLoop, if_neg (Nat.not_lt.mpr h)]

/-- The prices and quantities of the reference book. -/
def Agrees (m : MiniBook) (b : OrderBook) : Prop :=
  ∀ (s : Side) (p : UInt64), (m.book s.toU8)[p]? = (b.levels s)[p]?.map Level.totalQty

/-- Both books account for the live orders, which the tracker knows as the reference book does. -/
structure Shadows (m : MiniBook) (b : OrderBook) : Prop where
  orders : ∀ i : UInt64, m.orderTracker.orders[i]? = b.orders[i]?.map Order.toMeta
  live : ∀ (i : UInt64) (o : OrderMeta), m.orderTracker.orders[i]? = some o → 0 < o.qty
  tallies : ∀ (s : Side) (p : UInt64),
    Tallies (m.book s.toU8)[p]? (restingQty m.orderTracker.orders (s.isBid, p))
  carries : ∀ (s : Side) (p : UInt64),
    Carries (b.levels s)[p]? (restingQty m.orderTracker.orders (s.isBid, p))
      (restingCount m.orderTracker.orders (s.isBid, p))

theorem restingCount_le_restingQty {orders : ExtTreeMap UInt64 OrderMeta}
    (h : ∀ (i : UInt64) (o : OrderMeta), orders[i]? = some o → 0 < o.qty) (a : Bool × UInt64) :
    restingCount orders a ≤ restingQty orders a := by
  have hle := FiniteMap.total_le_mul (fun _ (m : OrderMeta) => if m.place = a then 1 else 0)
    (fun _ (m : OrderMeta) => if m.place = a then m.qty.toNat else 0) orders 1 ?_
  · rwa [Nat.mul_one] at hle
  · intro i m hm
    have hpos : 0 < m.qty.toNat := UInt64.lt_iff_toNat_lt.mp (h i m hm)
    split_ifs <;> omega

theorem restingQty_zero {orders : ExtTreeMap UInt64 OrderMeta} {a : Bool × UInt64}
    (h : restingCount orders a = 0) : restingQty orders a = 0 := by
  have hle : restingQty orders a ≤ restingCount orders a * (2 ^ 64 - 1) := by
    refine FiniteMap.total_le_mul _ _ orders (2 ^ 64 - 1) ?_
    intro i m _
    have := m.qty.toNat_lt
    split_ifs <;> omega
  rw [h] at hle
  omega

/-- Entries that account for the same live orders show the same quantity. -/
theorem Shadows.agrees {m : MiniBook} {b : OrderBook} (h : m.Shadows b) : m.Agrees b := by
  intro s p
  have ho := h.tallies s p
  have hl := h.carries s p
  have hle := restingCount_le_restingQty h.live (s.isBid, p)
  cases hb : (b.levels s)[p]? with
  | none =>
    rw [hb] at hl
    have hq := restingQty_zero hl
    cases hm : (m.book s.toU8)[p]? with
    | none => rfl
    | some v =>
      rw [hm] at ho
      exact absurd ho.2 (by omega)
  | some l =>
    rw [hb] at hl
    obtain ⟨hq, _, hn⟩ := hl
    cases hm : (m.book s.toU8)[p]? with
    | none =>
      rw [hm] at ho
      have hz : restingQty m.orderTracker.orders (s.isBid, p) = 0 := ho
      omega
    | some v =>
      rw [hm] at ho
      rw [Option.map_some, UInt64.toNat_inj.mp (ho.1.trans hq.symm)]

theorem shadows_new (cap : Nat) (instrumentId : UInt32) :
    (MiniBook.new cap).Shadows (OrderBook.new instrumentId) where
  orders i := by simp [new, OrderTracker.new, OrderBook.new]
  live i o h := by simp [new, OrderTracker.new] at h
  tallies s p := by
    have hnone : ((new cap).book s.toU8)[p]? = none := by
      cases s <;> simp [new, book, Side.toU8]
    rw [hnone]
    exact FiniteMap.total_empty _
  carries s p := by
    have hnone : ((OrderBook.new instrumentId).levels s)[p]? = none := by
      cases s <;> simp [OrderBook.new, OrderBook.levels]
    rw [hnone]
    exact FiniteMap.total_empty _

end MiniBook

/-- `qty` of a live order leaves the reference book, with the order when nothing of it is left. -/
def takeFrom (b : OrderBook) (orderId : UInt64) (o : Order) (qty : UInt64) : OrderBook :=
  if o.qty ≤ qty then
    { b with orders := b.orders.erase orderId }.deduct o.side o.price qty true
  else
    { b with orders := b.orders.insert orderId { o with qty := o.qty - qty } }.deduct o.side o.price
      qty false

theorem resolvedQty_le (known qty : UInt64) : resolvedQty known qty ≤ known := by
  simp only [resolvedQty]
  split_ifs with h
  · exact UInt64.le_refl known
  · exact UInt64.le_of_lt (UInt64.not_le.mp (not_or.mp h).2)

theorem resolvedQty_pos {known : UInt64} (h : 0 < known) (qty : UInt64) :
    0 < resolvedQty known qty := by
  simp only [resolvedQty]
  split_ifs with hq
  · exact h
  · have hne : qty ≠ 0 := (not_or.mp hq).1
    grind

theorem min_eq_resolvedQty {qty : UInt64} (hpos : 0 < qty) (known : UInt64) :
    min qty known = resolvedQty known qty := by
  show (if qty ≤ known then qty else known) = _
  simp only [resolvedQty]
  grind

theorem cancelOrder_live {b : OrderBook} {e : Event} {o : Order} (h : b.orders[e.orderId]? = some o) :
    (b.cancelOrder e).1 = takeFrom b e.orderId o (resolvedQty o.qty e.qty) := by
  simp only [OrderBook.cancelOrder, h, takeFrom, resolvedQty]
  split_ifs with hfull hle hle
  · rfl
  · exact absurd (UInt64.le_refl o.qty) hle
  · exact absurd (Or.inr hle) hfull
  · rfl

theorem executeTrade_live {b : OrderBook} {e : Event} {o : Order} (hpos : 0 < e.qty)
    (h : b.orders[e.orderId]? = some o) :
    (b.executeTrade e).1 = takeFrom b e.orderId o (resolvedQty o.qty e.qty) := by
  have hfill := min_eq_resolvedQty hpos o.qty
  have hgone : o.qty - resolvedQty o.qty e.qty = 0 ↔ o.qty ≤ resolvedQty o.qty e.qty := by
    have hle := resolvedQty_le o.qty e.qty
    constructor
    · intro hz
      have heq : o.qty = resolvedQty o.qty e.qty := by grind
      rw [← heq]
      exact UInt64.le_refl o.qty
    · intro hge
      rw [UInt64.le_antisymm hle hge, UInt64.sub_self]
  simp only [OrderBook.executeTrade, h, OrderBook.residual_eq, hfill, takeFrom]
  by_cases hz : o.qty ≤ resolvedQty o.qty e.qty
  · rw [if_pos (hgone.mpr hz), if_pos hz, decide_eq_true (hgone.mpr hz)]
    dsimp only
    rw [OrderBook.deduct_orders, OrderBook.deduct_orders_keep]
  · have hkeep : ¬ o.qty - resolvedQty o.qty e.qty = 0 := fun h => hz (hgone.mp h)
    rw [if_neg hkeep, if_neg hz, decide_eq_false hkeep]
    dsimp only
    rw [OrderBook.deduct_orders, OrderBook.deduct_orders_keep]

theorem deduct_get (b : OrderBook) (s r : Side) (price qty p : UInt64) (release : Bool) :
    ((b.deduct s price qty release).levels r)[p]? =
      if r = s ∧ p = price then deducted qty release (b.levels s)[price]? else (b.levels r)[p]? := by
  obtain ⟨t, he, ht⟩ := OrderBook.deduct_levels b s price qty release
  rw [he, OrderBook.levels_setLevels]
  by_cases hr : r = s
  · rw [if_pos hr, ht, hr]
    simp
  · rw [if_neg hr, if_neg (fun h => hr h.1)]

theorem place_eq_iff (o : Order) (s : Side) (p : UInt64) :
    o.toMeta.place = (s.isBid, p) ↔ s = o.side ∧ p = o.price := by
  have hplace : o.toMeta.place = (o.side.isBid, o.price) := Prod.ext (Side.decide_toU8 o.side) rfl
  rw [hplace, Prod.mk.injEq]
  cases s <;> cases o.side <;> simp [Side.isBid, eq_comm]

namespace MiniBook

theorem book_withTracker (m : MiniBook) (t : OrderTracker) (s : Side) :
    ({ m with orderTracker := t } : MiniBook).book s.toU8 = m.book s.toU8 := by
  cases s <;> rfl

/-- Tracker and reference book lose the same quantity of one order, and the order itself together. -/
theorem Shadows.deduct {m : MiniBook} {b : OrderBook} (h : m.Shadows b) {i : UInt64} {o : Order}
    (ho : b.orders[i]? = some o) {qty : UInt64} (hpos : 0 < qty) (release : Bool)
    {metas : ExtTreeMap UInt64 OrderMeta} {orders : ExtTreeMap UInt64 Order}
    (hsame : ∀ j : UInt64, metas[j]? = orders[j]?.map Order.toMeta)
    (hlive : ∀ (j : UInt64) (m' : OrderMeta), metas[j]? = some m' → 0 < m'.qty)
    (hq : ∀ a, restingQty metas a + (if o.toMeta.place = a then qty.toNat else 0) =
      restingQty m.orderTracker.orders a)
    (hn : ∀ a, restingCount metas a + (if o.toMeta.place = a then release.toNat else 0) =
      restingCount m.orderTracker.orders a) :
    ({ m with orderTracker := ⟨metas⟩ }.subQty o.side.toU8 o.price qty).Shadows
      ({ b with orders := orders }.deduct o.side o.price qty release) := by
  have htr : ({ m with orderTracker := ⟨metas⟩ }.subQty o.side.toU8 o.price qty).orderTracker.orders =
      metas := by
    rw [subQty_eq, setBook_tracker]
  have hlev (s : Side) : ({ b with orders := orders } : OrderBook).levels s = b.levels s := by
    cases s <;> rfl
  have hmeta : m.orderTracker.orders[i]? = some o.toMeta := by rw [h.orders, ho]; rfl
  have hcount := Flowlab.Core.restingCount_pos hmeta
  refine ⟨?_, ?_, ?_, ?_⟩
  · intro j
    rw [htr, OrderBook.deduct_orders_keep]
    exact hsame j
  · rw [htr]
    exact hlive
  · intro s p
    have hold := h.tallies s p
    have hqa := hq (s.isBid, p)
    rw [htr, subQty_get, book_withTracker, book_withTracker]
    by_cases ha : s = o.side ∧ p = o.price
    · rw [if_pos ((place_eq_iff o s p).mpr ha)] at hqa
      rw [if_pos ha, ← ha.1, ← ha.2]
      have hc := tallies_lessened hold hpos (by omega)
      rwa [show restingQty m.orderTracker.orders (s.isBid, p) - qty.toNat =
        restingQty metas (s.isBid, p) by omega] at hc
    · rw [if_neg (fun hp => ha ((place_eq_iff o s p).mp hp)), Nat.add_zero] at hqa
      rw [if_neg ha, hqa]
      exact hold
  · intro s p
    have hold := h.carries s p
    have hqa := hq (s.isBid, p)
    have hna := hn (s.isBid, p)
    rw [htr, deduct_get, hlev, hlev]
    by_cases ha : s = o.side ∧ p = o.price
    · have hplace := (place_eq_iff o s p).mpr ha
      rw [if_pos hplace] at hqa hna
      rw [if_pos ha, ← ha.1, ← ha.2]
      rw [hplace] at hcount
      have hc := Flowlab.Core.carries_deducted hold hcount qty release
      rwa [show restingQty m.orderTracker.orders (s.isBid, p) - qty.toNat =
        restingQty metas (s.isBid, p) by omega,
        show restingCount m.orderTracker.orders (s.isBid, p) - release.toNat =
        restingCount metas (s.isBid, p) by omega] at hc
    · rw [if_neg (fun hp => ha ((place_eq_iff o s p).mp hp)), Nat.add_zero] at hqa hna
      rw [if_neg ha, hqa, hna]
      exact hold

theorem Shadows.takeFrom {m : MiniBook} {b : OrderBook} (h : m.Shadows b) {i : UInt64} {o : Order}
    (ho : b.orders[i]? = some o) {qty : UInt64} (hpos : 0 < qty) (hle : qty ≤ o.qty) :
    ({ m with orderTracker := m.orderTracker.settle i o.toMeta qty }.subQty o.side.toU8 o.price
      qty).Shadows (takeFrom b i o qty) := by
  have hmeta : m.orderTracker.orders[i]? = some o.toMeta := by rw [h.orders, ho]; rfl
  simp only [OrderTracker.settle, Chaos.takeFrom]
  by_cases hall : o.qty ≤ qty
  · have hall' : o.toMeta.qty ≤ qty := hall
    have heq : qty = o.toMeta.qty := UInt64.le_antisymm hle hall
    rw [if_pos hall, if_pos hall']
    refine h.deduct ho hpos true ?_ ?_ ?_ ?_
    · intro j
      rw [FiniteMap.get_erase, FiniteMap.get_erase]
      split_ifs
      · rfl
      · exact h.orders j
    · intro j m' hm'
      rw [FiniteMap.get_erase] at hm'
      split_ifs at hm'
      exact h.live j m' hm'
    · intro a
      rw [heq]
      exact (Flowlab.Core.Book.resting_erase hmeta a).1
    · exact fun a => (Flowlab.Core.Book.resting_erase hmeta a).2
  · have hall' : ¬ o.toMeta.qty ≤ qty := hall
    have hle' : qty ≤ o.toMeta.qty := hle
    rw [if_neg hall, if_neg hall']
    refine h.deduct ho hpos false ?_ ?_ ?_ ?_
    · intro j
      rw [FiniteMap.get_insert, FiniteMap.get_insert]
      split_ifs
      · rfl
      · exact h.orders j
    · intro j m' hm'
      rw [FiniteMap.get_insert] at hm'
      split_ifs at hm'
      · rw [← Option.some.inj hm']
        have hlt := UInt64.not_le.mp hall
        show 0 < o.qty - qty
        have hsub := UInt64.toNat_sub_of_le o.qty qty hle
        have hlt' := UInt64.lt_iff_toNat_lt.mp hlt
        refine UInt64.lt_iff_toNat_lt.mpr ?_
        rw [hsub, UInt64.toNat_zero]
        omega
      · exact h.live j m' hm'
    · exact fun a => (Flowlab.Core.Book.resting_reduce hmeta hle' a).1
    · intro a
      simpa using (Flowlab.Core.Book.resting_reduce hmeta hle' a).2

end MiniBook

end Flowlab.Chaos
