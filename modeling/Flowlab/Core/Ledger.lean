import Flowlab.Core.Depth
import Flowlab.Core.HotRefine
import Flowlab.Framework.Machine

namespace Flowlab.Core

open Std Framework

/-- Where a resting order stands. -/
def OrderMeta.place (m : OrderMeta) : Bool × UInt64 := (decide (m.side = 0), m.price)

/-- Summed remaining quantity of the orders resting at a place. -/
def restingQty (orders : ExtTreeMap UInt64 OrderMeta) (a : Bool × UInt64) : Nat :=
  FiniteMap.total (fun _ m => if m.place = a then m.qty.toNat else 0) orders

/-- Number of orders resting at a place. -/
def restingCount (orders : ExtTreeMap UInt64 OrderMeta) (a : Bool × UInt64) : Nat :=
  FiniteMap.total (fun _ m => if m.place = a then 1 else 0) orders

/-- A level carries exactly what `n` orders with `q` in all rest there; no orders, no level. -/
def Carries : Option Level → Nat → Nat → Prop
  | none, _, n => n = 0
  | some l, q, n => l.totalQty.toNat = q ∧ l.orderCount.toNat = n ∧ 1 ≤ n

theorem carries_added {o : Option Level} {q n : Nat} (h : Carries o q n) (hq : n = 0 → q = 0)
    (price qty : UInt64) (hqty : q + qty.toNat < 2 ^ 64) (hn : n + 1 < 2 ^ 32) :
    Carries (added price qty o) (q + qty.toNat) (n + 1) := by
  cases o with
  | none =>
    have hn0 : n = 0 := h
    rw [hn0, hq hn0]
    exact ⟨by simp, rfl, Nat.le_refl _⟩
  | some l =>
    obtain ⟨h1, h2, _⟩ := h
    refine ⟨?_, ?_, by omega⟩
    · change (l.totalQty + qty).toNat = _
      rw [UInt64.toNat_add, h1, Nat.mod_eq_of_lt hqty]
    · change (l.orderCount + 1).toNat = _
      rw [UInt32.toNat_add, h2]
      exact Nat.mod_eq_of_lt hn

theorem carries_deducted {o : Option Level} {q n : Nat} (h : Carries o q n) (hn : 1 ≤ n)
    (qty : UInt64) (release : Bool) :
    Carries (deducted qty release o) (q - qty.toNat) (n - release.toNat) := by
  cases o with
  | none =>
    have hn0 : n = 0 := h
    omega
  | some l =>
    obtain ⟨h1, h2, _⟩ := h
    have hone : (1 : UInt32).toNat = 1 := rfl
    cases release with
    | false => exact ⟨by rw [← h1]; exact satSub64_toNat _ _, h2, hn⟩
    | true =>
      have hc : (satSub32 l.orderCount 1).toNat = n - 1 := by rw [satSub32_toNat, h2, hone]
      simp only [deducted, if_true]
      split_ifs with hz
      · have hz' := congrArg UInt32.toNat hz
        rw [hc, UInt32.toNat_zero] at hz'
        exact hz'
      · refine ⟨by rw [← h1]; exact satSub64_toNat _ _, hc, ?_⟩
        by_contra hlt
        rw [Bool.toNat_true] at hlt
        exact hz (UInt32.toNat_inj.mp (by rw [hc, UInt32.toNat_zero]; omega))

/-- The ladders account for the live orders. -/
structure Book.Balanced (k : Book) : Prop where
  sorted : k.Sorted
  carries : ∀ a, Carries (k.depth a) (restingQty k.orders a) (restingCount k.orders a)
  small : ∀ (i : UInt64) (m : OrderMeta), k.orders[i]? = some m → m.qty.toNat < 2 ^ 32

/-- A bookkeeping `R` kept between each level and the orders resting at its place. -/
structure Book.Keeps (R : Option Level → Nat → Nat → Prop) (k : Book) : Prop where
  sorted : k.Sorted
  keeps : ∀ a, R (k.depth a) (restingQty k.orders a) (restingCount k.orders a)
  small : ∀ (i : UInt64) (m : OrderMeta), k.orders[i]? = some m → m.qty.toNat < 2 ^ 32

/-- A bookkeeping that may differ from place to place. -/
structure Book.KeepsAt (R : Bool × UInt64 → Option Level → Nat → Nat → Prop) (k : Book) : Prop where
  sorted : k.Sorted
  keeps : ∀ a, R a (k.depth a) (restingQty k.orders a) (restingCount k.orders a)
  small : ∀ (i : UInt64) (m : OrderMeta), k.orders[i]? = some m → m.qty.toNat < 2 ^ 32

theorem Book.keepsAt_iff {R : Option Level → Nat → Nat → Prop} {k : Book} :
    k.KeepsAt (fun _ => R) ↔ k.Keeps R :=
  ⟨fun h => ⟨h.sorted, h.keeps, h.small⟩, fun h => ⟨h.sorted, h.keeps, h.small⟩⟩

theorem Book.Balanced.kept {k : Book} (h : k.Balanced) : k.Keeps Carries :=
  ⟨h.sorted, h.carries, h.small⟩

theorem Book.Keeps.balanced {k : Book} (h : k.Keeps Carries) : k.Balanced :=
  ⟨h.sorted, h.keeps, h.small⟩

theorem restingCount_pos {orders : ExtTreeMap UInt64 OrderMeta} {i : UInt64} {m : OrderMeta}
    (h : orders[i]? = some m) : 1 ≤ restingCount orders m.place := by
  have hle := FiniteMap.total_pos (fun _ (m' : OrderMeta) => if m'.place = m.place then 1 else 0)
    orders i m h
  rwa [if_pos rfl] at hle

theorem qty_le_restingQty {orders : ExtTreeMap UInt64 OrderMeta} {i : UInt64} {m : OrderMeta}
    (h : orders[i]? = some m) : m.qty.toNat ≤ restingQty orders m.place := by
  have hle := FiniteMap.total_pos
    (fun _ (m' : OrderMeta) => if m'.place = m.place then m'.qty.toNat else 0) orders i m h
  rwa [if_pos rfl] at hle

theorem restingCount_le (orders : ExtTreeMap UInt64 OrderMeta) (a : Bool × UInt64) :
    restingCount orders a ≤ orders.size := by
  have h := FiniteMap.total_le_mul (fun _ (m : OrderMeta) => if m.place = a then 1 else 0)
    (fun _ _ => 1) orders 1 (fun _ m _ => by split_ifs <;> omega)
  rwa [FiniteMap.total_one, Nat.mul_one] at h

theorem restingQty_le {orders : ExtTreeMap UInt64 OrderMeta}
    (h : ∀ (i : UInt64) (m : OrderMeta), orders[i]? = some m → m.qty.toNat < 2 ^ 32)
    (a : Bool × UInt64) : restingQty orders a ≤ restingCount orders a * (2 ^ 32 - 1) := by
  refine FiniteMap.total_le_mul _ _ orders (2 ^ 32 - 1) ?_
  intro i m hm
  have := h i m hm
  split_ifs <;> omega

namespace Book

theorem balanced_empty : Balanced Book.empty where
  sorted := ⟨List.Pairwise.nil, List.Pairwise.nil⟩
  carries a := by
    have hnone : Book.empty.depth a = none := by
      obtain ⟨i, p⟩ := a
      cases i <;> rfl
    rw [hnone]
    exact FiniteMap.total_empty _
  small i m h := by simp [empty] at h

/-- A new order, not live before, joins its level. -/
theorem balanced_addOrder {M : Nat} {k : Book} (h : k.Balanced) {e : Event} (hid : e.orderId ≠ 0)
    (hnew : k.orders[e.orderId]? = none) (hqty : e.qty.toNat < 2 ^ 32)
    (hsize : k.orders.size + 1 < 2 ^ 32) : (k.addOrder M e).1.Balanced := by
  simp only [addOrder, if_pos hid]
  split_ifs with hfull
  · exact h
  · have hf := added_files e.price e.qty
    have hd := depth_alterSide h.sorted (decide (e.side = 0)) hf
    have hso := sorted_alterSide h.sorted (decide (e.side = 0)) hf
    refine ⟨⟨hso.bids, hso.asks⟩, ?_, ?_⟩
    · intro a
      have hcount := restingCount_le k.orders a
      have hbound := restingQty_le h.small a
      have hold := h.carries a
      change Carries ((k.alterSide _ _ _).depth a) _ _
      rw [alterSide_orders, hd]
      simp only [restingQty, restingCount] at *
      rw [FiniteMap.total_insert_new _ _ _ _ hnew, FiniteMap.total_insert_new _ _ _ _ hnew]
      by_cases ha : a = (decide (e.side = 0), e.price)
      · have hpl : (⟨e.price, e.qty, e.side⟩ : OrderMeta).place = a := ha.symm
        rw [if_pos hpl, if_pos hpl, alterAt, ha, Function.update_self, ← ha, Nat.add_comm e.qty.toNat,
          Nat.add_comm 1]
        refine carries_added hold ?_ _ _ ?_ ?_
        · intro h0
          rw [h0] at hbound
          omega
        · have := Nat.mul_le_mul_right (2 ^ 32 - 1) hcount
          have hlt : k.orders.size * (2 ^ 32 - 1) ≤ (2 ^ 32 - 2) * (2 ^ 32 - 1) :=
            Nat.mul_le_mul_right _ (by omega)
          omega
        · omega
      · have hpl : (⟨e.price, e.qty, e.side⟩ : OrderMeta).place ≠ a := fun hp => ha hp.symm
        rw [if_neg hpl, if_neg hpl, alterAt, Function.update_of_ne ha, Nat.zero_add, Nat.zero_add]
        exact hold
    · intro i m hm
      rw [alterSide_orders, FiniteMap.get_insert] at hm
      split_ifs at hm
      · rw [← Option.some.inj hm]
        exact hqty
      · exact h.small i m hm

/-- The live orders without one of them. -/
theorem resting_erase {orders : ExtTreeMap UInt64 OrderMeta} {i : UInt64}
    {m : OrderMeta} (hm : orders[i]? = some m)
    (a : Bool × UInt64) :
    restingQty (orders.erase i) a + (if m.place = a then m.qty.toNat else 0) =
        restingQty orders a ∧
      restingCount (orders.erase i) a + (if m.place = a then 1 else 0) =
        restingCount orders a := by
  simp only [restingQty, restingCount]
  rw [FiniteMap.total_erase _ _ _ _ hm, FiniteMap.total_erase _ _ _ _ hm]
  omega

/-- The live orders with part of one of them gone. -/
theorem resting_reduce {orders : ExtTreeMap UInt64 OrderMeta} {i : UInt64}
    {m : OrderMeta} (hm : orders[i]? = some m)
    {qty : UInt64} (hle : qty ≤ m.qty) (a : Bool × UInt64) :
    restingQty (orders.insert i { m with qty := m.qty - qty }) a +
        (if m.place = a then qty.toNat else 0) = restingQty orders a ∧
      restingCount (orders.insert i { m with qty := m.qty - qty }) a = restingCount orders a := by
  have hq := FiniteMap.total_update
    (fun _ (m : OrderMeta) => if m.place = a then m.qty.toNat else 0) orders i m
    { m with qty := m.qty - qty } hm
  have hn := FiniteMap.total_update (fun _ (m : OrderMeta) => if m.place = a then 1 else 0)
    orders i m { m with qty := m.qty - qty } hm
  have hle' := UInt64.le_iff_toNat_le.mp hle
  have hsub := UInt64.toNat_sub_of_le m.qty qty hle
  change restingQty _ a + _ = _ + restingQty _ a at hq
  change restingCount _ a + _ = _ + restingCount _ a at hn
  by_cases ha : m.place = a
  · have ha' : ({ m with qty := m.qty - qty } : OrderMeta).place = a := ha
    rw [if_pos ha, if_pos ha'] at hq hn
    rw [if_pos ha]
    dsimp only at hq
    omega
  · have ha' : ¬ ({ m with qty := m.qty - qty } : OrderMeta).place = a := ha
    rw [if_neg ha, if_neg ha'] at hq hn
    rw [if_neg ha]
    omega

theorem small_erase {k : Book}
    (h : ∀ (i : UInt64) (m : OrderMeta), k.orders[i]? = some m → m.qty.toNat < 2 ^ 32)
    (i j : UInt64) (m : OrderMeta) (hm : (k.orders.erase i)[j]? = some m) : m.qty.toNat < 2 ^ 32 := by
  rw [FiniteMap.get_erase] at hm
  split_ifs at hm
  exact h j m hm

theorem small_reduce {k : Book}
    (h : ∀ (i : UInt64) (m : OrderMeta), k.orders[i]? = some m → m.qty.toNat < 2 ^ 32) {i : UInt64}
    {m : OrderMeta} (hm : k.orders[i]? = some m) {qty : UInt64} (hle : qty ≤ m.qty) (j : UInt64)
    (m' : OrderMeta) (hm' : (k.orders.insert i { m with qty := m.qty - qty })[j]? = some m') :
    m'.qty.toNat < 2 ^ 32 := by
  rw [FiniteMap.get_insert] at hm'
  split_ifs at hm'
  · rw [← Option.some.inj hm']
    have := h i m hm
    have := UInt64.toNat_sub_of_le m.qty qty hle
    dsimp only
    omega
  · exact h j m' hm'

section

/-! A bookkeeping that survives one deduction survives every cancel and every trade. -/

variable {R : Bool × UInt64 → Option Level → Nat → Nat → Prop}
  (hR : ∀ {a o q n}, R a o q n → 1 ≤ n → ∀ (qty : UInt64) (release : Bool), qty.toNat ≤ q →
    R a (deducted qty release o) (q - qty.toNat) (n - release.toNat))

include hR

/-- Orders and ladder lose the same quantity, and the same order when one is released. -/
theorem keepsAt_deductOn {k : Book} (h : k.KeepsAt R) (orders : ExtTreeMap UInt64 OrderMeta)
    {m : OrderMeta} (hm : 1 ≤ restingCount k.orders m.place) (qty : UInt64) (release : Bool)
    (hsmall : ∀ (i : UInt64) (m : OrderMeta), orders[i]? = some m → m.qty.toNat < 2 ^ 32)
    (hq : ∀ a, restingQty orders a + (if m.place = a then qty.toNat else 0) = restingQty k.orders a)
    (hn : ∀ a, restingCount orders a + (if m.place = a then release.toNat else 0) =
      restingCount k.orders a) :
    ({ k with orders := orders }.deductOn (decide (m.side = 0)) m.price qty release).1.KeepsAt R := by
  have hf := deducted_files m.price qty release
  have hs : ({ k with orders := orders } : Book).Sorted := ⟨h.sorted.bids, h.sorted.asks⟩
  refine ⟨sorted_alterSide hs _ hf, ?_, ?_⟩
  · intro a
    have hold := h.keeps a
    have hqa := hq a
    have hna := hn a
    rw [deductOn, alterSide_orders, depth_alterSide hs _ hf]
    change R a (alterAt k.depth m.place _ a) (restingQty orders a) (restingCount orders a)
    by_cases ha : m.place = a
    · rw [if_pos ha] at hqa hna
      rw [alterAt, ← ha, Function.update_self, ha]
      have hc := hR hold (ha ▸ hm) qty release (by omega)
      have e1 : restingQty k.orders a - qty.toNat = restingQty orders a := by omega
      have e2 : restingCount k.orders a - release.toNat = restingCount orders a := by omega
      rwa [e1, e2] at hc
    · rw [if_neg ha, Nat.add_zero] at hqa hna
      rw [alterAt, Function.update_of_ne (Ne.symm ha), hqa, hna]
      exact hold
  · intro i m' hm'
    rw [deductOn, alterSide_orders] at hm'
    exact hsmall i m' hm'

theorem keepsAt_release {k : Book} (h : k.KeepsAt R) {i : UInt64} {m : OrderMeta}
    (hm : k.orders[i]? = some m) :
    ({ k with orders := k.orders.erase i }.deductOn (decide (m.side = 0)) m.price m.qty
      true).1.KeepsAt R :=
  keepsAt_deductOn hR h _ (restingCount_pos hm) m.qty true (small_erase h.small i)
    (fun a => (resting_erase hm a).1) (fun a => (resting_erase hm a).2)

theorem keepsAt_reduce {k : Book} (h : k.KeepsAt R) {i : UInt64} {m : OrderMeta}
    (hm : k.orders[i]? = some m) {qty : UInt64} (hle : qty ≤ m.qty) :
    ({ k with orders := k.orders.insert i { m with qty := m.qty - qty } }.deductOn
      (decide (m.side = 0)) m.price qty false).1.KeepsAt R :=
  keepsAt_deductOn hR h _ (restingCount_pos hm) qty false (small_reduce h.small hm hle)
    (fun a => (resting_reduce hm hle a).1)
    (fun a => by simpa using (resting_reduce hm hle a).2)

theorem keepsAt_cancelOrder {k : Book} (h : k.KeepsAt R) {e : Event} (hid : e.orderId ≠ 0) :
    (k.cancelOrder e).1.KeepsAt R := by
  simp only [cancelOrder]
  rw [if_pos hid]
  cases hm : k.orders[e.orderId]? with
  | none => exact h
  | some m =>
    dsimp only
    split_ifs with hfull
    · exact keepsAt_release hR h hm
    · have hlt := UInt64.not_le.mp (not_or.mp hfull).2
      exact keepsAt_reduce hR h hm (UInt64.le_of_lt hlt)

theorem keepsAt_trade {k : Book} (h : k.KeepsAt R) {e : Event} (hid : e.orderId ≠ 0) :
    (k.trade e).1.KeepsAt R := by
  simp only [trade]
  rw [if_neg hid]
  cases hm : k.orders[e.orderId]? with
  | none => exact h
  | some m =>
    have hle := fill_le e.qty m.qty
    dsimp only
    split_ifs with hpart
    · exact keepsAt_reduce hR h hm hle
    · have hall : min e.qty m.qty = m.qty := by
        have := congrArg (· + min e.qty m.qty) (not_not.mp hpart)
        simpa using this.symm
      rw [hall]
      exact keepsAt_release hR h hm

end

section

variable {R : Option Level → Nat → Nat → Prop}
  (hR : ∀ {o q n}, R o q n → 1 ≤ n → ∀ (qty : UInt64) (release : Bool),
    R (deducted qty release o) (q - qty.toNat) (n - release.toNat))

include hR

theorem keeps_cancelOrder {k : Book} (h : k.Keeps R) {e : Event} (hid : e.orderId ≠ 0) :
    (k.cancelOrder e).1.Keeps R :=
  keepsAt_iff.mp (keepsAt_cancelOrder (fun ho hn qty release _ => hR ho hn qty release)
    (keepsAt_iff.mpr h) hid)

theorem keeps_trade {k : Book} (h : k.Keeps R) {e : Event} (hid : e.orderId ≠ 0) :
    (k.trade e).1.Keeps R :=
  keepsAt_iff.mp (keepsAt_trade (fun ho hn qty release _ => hR ho hn qty release)
    (keepsAt_iff.mpr h) hid)

end

end Book

/-- An add, cancel or trade of a referenced order with a 32-bit quantity. -/
structure Accountable (e : Event) : Prop where
  kind : EventType.fromU8 e.eventType = some .orderAdd ∨
    EventType.fromU8 e.eventType = some .orderCancel ∨ EventType.fromU8 e.eventType = some .trade
  orderId : e.orderId ≠ 0
  qty : e.qty.toNat < 2 ^ 32

theorem Book.balanced_apply {M : Nat} {k : Book} (h : k.Balanced) {e : Event} (he : Accountable e)
    (hnew : EventType.fromU8 e.eventType = some .orderAdd → k.orders[e.orderId]? = none)
    (hsize : k.orders.size + 1 < 2 ^ 32) : (k.apply M e).1.Balanced := by
  simp only [Book.apply]
  rcases he.kind with ht | ht | ht
  · rw [ht]
    exact balanced_addOrder h he.orderId (hnew ht) he.qty hsize
  · rw [ht]
    exact (keeps_cancelOrder carries_deducted h.kept he.orderId).balanced
  · rw [ht]
    exact (keeps_trade carries_deducted h.kept he.orderId).balanced

namespace HotOrderBook

/-- Every level is the sum of the live orders at its place, and every live order has its level. -/
structure Accounted {M : Nat} (b : HotOrderBook M) : Prop where
  level : ∀ isBid, ∀ l ∈ (b.half isBid).ladder,
    l.totalQty.toNat = restingQty b.orders.live (isBid, l.price) ∧
    l.orderCount.toNat = restingCount b.orders.live (isBid, l.price) ∧ 1 ≤ l.orderCount.toNat
  order : ∀ orderId m, b.orderMeta orderId = some m →
    ∃ l ∈ (b.half (decide (m.side = 0))).ladder, l.price = m.price

/-- The additions of the next event do not overflow and its subtractions do not clamp. -/
def Exact {M : Nat} (b : HotOrderBook M) (e : Event) : Prop :=
  match EventType.fromU8 e.eventType with
  | some .orderAdd => ∀ l, levelAt e.price (b.half (decide (e.side = 0))).ladder = some l →
      l.totalQty.toNat + e.qty.toNat < 2 ^ 64 ∧ l.orderCount.toNat + 1 < 2 ^ 32
  | some .orderCancel => ∀ m, b.orderMeta e.orderId = some m →
      ∃ l, levelAt m.price (b.half (decide (m.side = 0))).ladder = some l ∧
        (if e.qty = 0 ∨ m.qty ≤ e.qty then m.qty else e.qty) ≤ l.totalQty ∧ 1 ≤ l.orderCount
  | some .trade => ∀ m, b.orderMeta e.orderId = some m →
      ∃ l, levelAt m.price (b.half (decide (m.side = 0))).ladder = some l ∧
        min e.qty m.qty ≤ l.totalQty ∧ 1 ≤ l.orderCount
  | _ => True

theorem view_depth {M : Nat} (b : HotOrderBook M) (a : Bool × UInt64) :
    b.view.depth a = levelAt a.2 (b.half a.1).ladder := by
  rw [Book.depth, view_side]

/-- A live order's level holds at least its quantity. -/
theorem level_of_live {M : Nat} {b : HotOrderBook M} (h : b.view.Balanced) {orderId : UInt64}
    {m : OrderMeta} (hm : b.orderMeta orderId = some m) :
    ∃ l, levelAt m.price (b.half (decide (m.side = 0))).ladder = some l ∧ m.qty ≤ l.totalQty ∧
      1 ≤ l.orderCount := by
  rw [orderMeta, ← OrderSlab.live_get] at hm
  have hpos : 1 ≤ restingCount b.view.orders m.place := restingCount_pos hm
  have hqty : m.qty.toNat ≤ restingQty b.view.orders m.place := qty_le_restingQty hm
  have hc := h.carries m.place
  cases hd : b.view.depth m.place with
  | none =>
    rw [hd] at hc
    exact absurd hpos (by rw [hc]; omega)
  | some l =>
    rw [hd] at hc
    obtain ⟨h1, h2, h3⟩ := hc
    rw [view_depth] at hd
    refine ⟨l, hd, UInt64.le_iff_toNat_le.mpr (by omega), UInt32.le_iff_toNat_le.mpr ?_⟩
    rw [h2]
    exact h3

theorem accounted_of_balanced {M : Nat} {b : HotOrderBook M} (h : b.view.Balanced) :
    b.Accounted where
  level isBid l hl := by
    have hsorted := Book.sorted_side h.sorted isBid
    rw [view_side] at hsorted
    have hd : b.view.depth (isBid, l.price) = some l := by
      rw [view_depth]
      exact (KeyedList.lookup_iff_mem hsorted l).mpr ⟨hl, rfl⟩
    have hc := h.carries (isBid, l.price)
    rw [hd] at hc
    obtain ⟨h1, h2, h3⟩ := hc
    exact ⟨h1, h2, h2 ▸ h3⟩
  order orderId m hm := by
    obtain ⟨l, hl, _⟩ := level_of_live h hm
    exact ⟨l, KeyedList.mem_of_lookup hl, KeyedList.key_of_lookup hl⟩

theorem exact_of_balanced {M : Nat} {b : HotOrderBook M} (h : b.view.Balanced) {e : Event}
    (he : Accountable e) (hsize : b.view.orders.size + 1 < 2 ^ 32) : b.Exact e := by
  simp only [Exact]
  rcases he.kind with ht | ht | ht
  · rw [ht]
    intro l hl
    have hc := h.carries (decide (e.side = 0), e.price)
    have hcount := restingCount_le b.view.orders (decide (e.side = 0), e.price)
    have hbound := restingQty_le h.small (decide (e.side = 0), e.price)
    rw [view_depth, hl] at hc
    obtain ⟨h1, h2, _⟩ := hc
    have hq := he.qty
    have hmul : restingCount b.view.orders (decide (e.side = 0), e.price) * (2 ^ 32 - 1) ≤
        (2 ^ 32 - 2) * (2 ^ 32 - 1) := Nat.mul_le_mul_right _ (by omega)
    omega
  · rw [ht]
    intro m hm
    obtain ⟨l, hl, hq, hn⟩ := level_of_live h hm
    refine ⟨l, hl, ?_, hn⟩
    split_ifs with hfull
    · exact hq
    · exact UInt64.le_trans (UInt64.le_of_lt (UInt64.not_le.mp (not_or.mp hfull).2)) hq
  · rw [ht]
    intro m hm
    obtain ⟨l, hl, hq, hn⟩ := level_of_live h hm
    refine ⟨l, hl, UInt64.le_trans ?_ hq, hn⟩
    exact fill_le e.qty m.qty

theorem run_balanced {M : Nat} (hM : M < 2 ^ 32) (instrumentId : UInt32) (es : List Event)
    (hev : ∀ e ∈ es, Accountable e)
    (hnew : ∀ p e, p ++ [e] <+: es → EventType.fromU8 e.eventType = some .orderAdd →
      ((new M instrumentId).run p).orderMeta e.orderId = none)
    (hlen : es.length < 2 ^ 32) :
    ((new M instrumentId).run es).view.Balanced ∧
      ((new M instrumentId).run es).view.orders.size ≤ es.length := by
  have hview (p : List Event) (hp : p <+: es) :
      ((new M instrumentId).run p).view = Book.empty.run M p := by
    refine (run_refines hM instrumentId p (fun q hq => ?_)).2
    have hq' := Book.size_empty_run M q
    have := (hq.trans hp).length_le
    omega
  induction es using List.reverseRecOn with
  | nil =>
    rw [run, List.foldl_nil, view_new]
    exact ⟨Book.balanced_empty, Nat.le_of_eq ExtTreeMap.size_empty⟩
  | append_singleton es e ih =>
    have hpre : es <+: es ++ [e] := List.prefix_append es [e]
    have hes := hpre.length_le
    obtain ⟨hb, hs⟩ := ih (fun d hd => hev d (List.mem_append_left _ hd))
      (fun p d hp => hnew p d (hp.trans hpre)) (by omega) (fun p hp => hview p (hp.trans hpre))
    rw [hview (es ++ [e]) List.prefix_rfl]
    refine ⟨?_, Book.size_empty_run M _⟩
    rw [hview es hpre] at hb hs
    rw [Book.run, List.foldl_append]
    refine Book.balanced_apply hb (hev e (by simp)) ?_ ?_
    · intro ht
      have hnone := hnew es e List.prefix_rfl ht
      rw [orderMeta, ← OrderSlab.live_get] at hnone
      rw [← hview es hpre]
      exact hnone
    · rw [List.length_append, List.length_singleton] at hlen
      omega

end HotOrderBook

/-- Along every run of fewer than 2^32 adds of new ids, cancels and trades the ladders account for
the live orders, refused adds included, and no step overflows or clamps. -/
theorem hotBook_accounted {M : Nat} (hM : M < 2 ^ 32) (instrumentId : UInt32) (es : List Event)
    (hev : ∀ e ∈ es, Accountable e)
    (hnew : ∀ p e, p ++ [e] <+: es → EventType.fromU8 e.eventType = some .orderAdd →
      ((HotOrderBook.new M instrumentId).run p).orderMeta e.orderId = none)
    (hlen : es.length < 2 ^ 32) :
    (∀ p, p <+: es → ((HotOrderBook.new M instrumentId).run p).Accounted) ∧
    (∀ p e, p ++ [e] <+: es → ((HotOrderBook.new M instrumentId).run p).Exact e) := by
  have hbal (p : List Event) (hp : p <+: es) :=
    HotOrderBook.run_balanced hM instrumentId p (fun e he => hev e (hp.subset he))
      (fun q e hq => hnew q e (hq.trans hp)) (hp.length_le.trans_lt hlen)
  refine ⟨fun p hp => HotOrderBook.accounted_of_balanced (hbal p hp).1, ?_⟩
  intro p e hp
  have hpre : p <+: es := (List.prefix_append p [e]).trans hp
  have hlt := hp.length_le
  rw [List.length_append, List.length_singleton] at hlt
  obtain ⟨hb, hs⟩ := hbal p hpre
  exact HotOrderBook.exact_of_balanced hb (hev e (hp.subset (by simp))) (by omega)

/-- Two adds, one of them refused by the full grid of one level, and a partial fill. -/
theorem hotBook_accounted_short :
    ((HotOrderBook.new 1 1).run [⟨0, 10, 5, 1, 1, 1, 0⟩, ⟨1, 11, 6, 2, 1, 1, 0⟩,
      ⟨2, 0, 2, 1, 1, 4, 0⟩]).Accounted ∧
    ((HotOrderBook.new 1 1).run [⟨0, 10, 5, 1, 1, 1, 0⟩, ⟨1, 11, 6, 2, 1, 1, 0⟩]).Exact
      ⟨2, 0, 2, 1, 1, 4, 0⟩ := by
  have h := hotBook_accounted (M := 1) (by norm_num) 1
    [⟨0, 10, 5, 1, 1, 1, 0⟩, ⟨1, 11, 6, 2, 1, 1, 0⟩, ⟨2, 0, 2, 1, 1, 4, 0⟩] ?_ ?_ (by decide)
  · exact ⟨h.1 _ List.prefix_rfl, h.2 _ _ List.prefix_rfl⟩
  · intro e he
    fin_cases he <;> exact ⟨by decide, by decide, by decide⟩
  · intro p e hp
    apply Machine.steps_of_get _ hp
    decide

end Flowlab.Core
