import Flowlab.Core.Ledger

namespace Flowlab.Core

open Std Framework

/-- A level holds at least what `n` orders with `q` in all ask of it, and no more than `adds` adds
of 32-bit quantities can have brought; no level, no orders. -/
def Covers : Option Level → Nat → Nat → Nat → Prop
  | none, _, n, _ => n = 0
  | some l, q, n, adds =>
    q ≤ l.totalQty.toNat ∧ n ≤ l.orderCount.toNat ∧
      l.totalQty.toNat ≤ adds * 2 ^ 32 ∧ l.orderCount.toNat ≤ adds

theorem Covers.mono {o : Option Level} {q n adds q' n' adds' : Nat} (h : Covers o q n adds)
    (hq : q' ≤ q) (hn : n' ≤ n) (ha : adds ≤ adds') : Covers o q' n' adds' := by
  cases o with
  | none =>
    have hn0 : n = 0 := h
    exact Nat.le_zero.mp (hn0 ▸ hn)
  | some l =>
    obtain ⟨h1, h2, h3, h4⟩ := h
    have hmul := Nat.mul_le_mul_right (2 ^ 32) ha
    exact ⟨hq.trans h1, hn.trans h2, h3.trans hmul, h4.trans ha⟩

theorem Covers.added {o : Option Level} {q n adds q' n' : Nat} (h : Covers o q n adds)
    (hq : n = 0 → q = 0) (price : UInt64) {qty : UInt64} (hqty : qty.toNat < 2 ^ 32)
    (hadds : adds + 1 < 2 ^ 31) (hq' : q' ≤ q + qty.toNat) (hn' : n' ≤ n + 1) :
    Covers (added price qty o) q' n' (adds + 1) := by
  cases o with
  | none =>
    have hn0 : n = 0 := h
    have hq0 := hq hn0
    have hone : (1 : UInt32).toNat = 1 := rfl
    exact ⟨by dsimp only; omega, by dsimp only; omega, by dsimp only; omega, by dsimp only; omega⟩
  | some l =>
    obtain ⟨h1, h2, h3, h4⟩ := h
    have htot : (l.totalQty + qty).toNat = l.totalQty.toNat + qty.toNat := by
      rw [UInt64.toNat_add]
      exact Nat.mod_eq_of_lt (show l.totalQty.toNat + qty.toNat < 2 ^ 64 by omega)
    have hcnt : (l.orderCount + 1).toNat = l.orderCount.toNat + 1 := by
      rw [UInt32.toNat_add]
      exact Nat.mod_eq_of_lt (show l.orderCount.toNat + 1 < 2 ^ 32 by omega)
    refine ⟨?_, ?_, ?_, ?_⟩
    · change q' ≤ (l.totalQty + qty).toNat
      omega
    · change n' ≤ (l.orderCount + 1).toNat
      omega
    · change (l.totalQty + qty).toNat ≤ _
      omega
    · change (l.orderCount + 1).toNat ≤ _
      omega

theorem Covers.deducted {o : Option Level} {q n adds : Nat} (h : Covers o q n adds) (hn : 1 ≤ n)
    (qty : UInt64) (release : Bool) :
    Covers (deducted qty release o) (q - qty.toNat) (n - release.toNat) adds := by
  cases o with
  | none =>
    have hn0 : n = 0 := h
    omega
  | some l =>
    obtain ⟨h1, h2, h3, h4⟩ := h
    have htot := satSub64_toNat l.totalQty qty
    cases release with
    | false => exact ⟨by dsimp only; omega, h2, by dsimp only; omega, h4⟩
    | true =>
      have hone : (1 : UInt32).toNat = 1 := rfl
      have hcnt := satSub32_toNat l.orderCount 1
      simp only [Core.deducted, if_true, Bool.toNat_true]
      split_ifs with hz
      · have hz' := congrArg UInt32.toNat hz
        rw [hcnt, UInt32.toNat_zero] at hz'
        exact Nat.le_zero.mp (by omega)
      · exact ⟨by dsimp only; omega, by dsimp only; omega, by dsimp only; omega,
          by dsimp only; omega⟩

/-- Setting one order, known or not, adds no more than that order. -/
theorem resting_insert_le (orders : ExtTreeMap UInt64 OrderMeta) (i : UInt64) (m : OrderMeta)
    (a : Bool × UInt64) :
    restingQty (orders.insert i m) a ≤ restingQty orders a + (if m.place = a then m.qty.toNat else 0) ∧
      restingCount (orders.insert i m) a ≤ restingCount orders a + (if m.place = a then 1 else 0) := by
  simp only [restingQty, restingCount]
  cases h : orders[i]? with
  | none =>
    rw [FiniteMap.total_insert_new _ _ _ _ h, FiniteMap.total_insert_new _ _ _ _ h]
    omega
  | some m₀ =>
    have hq := FiniteMap.total_update
      (fun _ (m : OrderMeta) => if m.place = a then m.qty.toNat else 0) orders i m₀ m h
    have hn := FiniteMap.total_update
      (fun _ (m : OrderMeta) => if m.place = a then 1 else 0) orders i m₀ m h
    omega

/-- After `adds` events every level covers the live orders at its place, whatever duplicate adds
and half-done modifies left on it. -/
def Book.Covered (adds : Nat) (k : Book) : Prop := k.Keeps (fun o q n => Covers o q n adds)

namespace Book

theorem covered_empty : Covered 0 Book.empty where
  sorted := balanced_empty.sorted
  keeps a := by
    have hnone : Book.empty.depth a = none := by
      obtain ⟨i, p⟩ := a
      cases i <;> rfl
    rw [hnone]
    exact FiniteMap.total_empty _
  small := balanced_empty.small

theorem Covered.mono {adds adds' : Nat} {k : Book} (h : k.Covered adds) (ha : adds ≤ adds') :
    k.Covered adds' :=
  ⟨h.sorted, fun a => (h.keeps a).mono (Nat.le_refl _) (Nat.le_refl _) ha, h.small⟩

/-- An add, also of an id that is live: the old order leaves its quantity behind. -/
theorem covered_addOrder {M adds : Nat} {k : Book} (h : k.Covered adds) {e : Event}
    (hid : e.orderId ≠ 0) (hqty : e.qty.toNat < 2 ^ 32) (hadds : adds + 1 < 2 ^ 31) :
    (k.addOrder M e).1.Covered (adds + 1) := by
  simp only [addOrder, if_pos hid]
  split_ifs with hfull
  · exact h.mono (Nat.le_succ adds)
  · have hf := added_files e.price e.qty
    have hd := depth_alterSide h.sorted (decide (e.side = 0)) hf
    have hso := sorted_alterSide h.sorted (decide (e.side = 0)) hf
    refine ⟨⟨hso.bids, hso.asks⟩, ?_, ?_⟩
    · intro a
      have hold := h.keeps a
      have hbound := restingQty_le h.small a
      obtain ⟨hq, hn⟩ := resting_insert_le k.orders e.orderId ⟨e.price, e.qty, e.side⟩ a
      change Covers ((k.alterSide _ _ _).depth a) _ _ _
      rw [alterSide_orders, hd]
      by_cases ha : a = (decide (e.side = 0), e.price)
      · have hpl : (⟨e.price, e.qty, e.side⟩ : OrderMeta).place = a := ha.symm
        rw [if_pos hpl] at hq hn
        rw [alterAt, ha, Function.update_self, ← ha]
        refine hold.added ?_ e.price hqty hadds hq hn
        intro h0
        rw [h0, Nat.zero_mul] at hbound
        exact Nat.le_zero.mp hbound
      · have hpl : (⟨e.price, e.qty, e.side⟩ : OrderMeta).place ≠ a := fun hp => ha hp.symm
        rw [if_neg hpl] at hq hn
        rw [alterAt, Function.update_of_ne ha]
        exact hold.mono hq hn (Nat.le_succ adds)
    · intro i m hm
      rw [alterSide_orders, FiniteMap.get_insert] at hm
      split_ifs at hm
      · rw [← Option.some.inj hm]
        exact hqty
      · exact h.small i m hm

theorem covered_cancelOrder {adds : Nat} {k : Book} (h : k.Covered adds) {e : Event}
    (hid : e.orderId ≠ 0) : (k.cancelOrder e).1.Covered adds :=
  keeps_cancelOrder Covers.deducted h hid

theorem covered_trade {adds : Nat} {k : Book} (h : k.Covered adds) {e : Event}
    (hid : e.orderId ≠ 0) : (k.trade e).1.Covered adds :=
  keeps_trade Covers.deducted h hid

end Book

/-- An event of an order-id stream with a 32-bit quantity. -/
structure OrderIdEvent (e : Event) : Prop where
  kind : EventType.fromU8 e.eventType = some .orderAdd ∨
    EventType.fromU8 e.eventType = some .orderCancel ∨
    EventType.fromU8 e.eventType = some .orderModify ∨ EventType.fromU8 e.eventType = some .trade
  orderId : e.orderId ≠ 0
  qty : e.qty.toNat < 2 ^ 32

namespace Book

theorem covered_apply {M adds : Nat} {k : Book} (h : k.Covered adds) {e : Event}
    (he : OrderIdEvent e) (hadds : adds + 1 < 2 ^ 31) : (k.apply M e).1.Covered (adds + 1) := by
  simp only [Book.apply]
  rcases he.kind with ht | ht | ht | ht
  · rw [ht]
    exact covered_addOrder h he.orderId he.qty hadds
  · rw [ht]
    exact (covered_cancelOrder h he.orderId).mono (Nat.le_succ adds)
  · rw [ht]
    exact covered_addOrder (covered_cancelOrder h he.orderId) he.orderId he.qty hadds
  · rw [ht]
    exact (covered_trade h he.orderId).mono (Nat.le_succ adds)

theorem covered_run (M : Nat) (es : List Event) (hev : ∀ e ∈ es, OrderIdEvent e)
    (hlen : es.length < 2 ^ 31) : (Book.empty.run M es).Covered es.length := by
  induction es using List.reverseRecOn with
  | nil => exact covered_empty
  | append_singleton es e ih =>
    rw [List.length_append, List.length_singleton] at hlen
    have hold := ih (fun d hd => hev d (List.mem_append_left _ hd)) (by omega)
    rw [Book.run, List.foldl_append, List.length_append]
    exact covered_apply hold (hev e (by simp)) hlen

end Book

namespace HotOrderBook

/-- Every live order has its level, which counts at least the live orders resting there and holds
at least what remains of them. -/
def Backed {M : Nat} (b : HotOrderBook M) : Prop :=
  ∀ orderId m, b.orderMeta orderId = some m →
    ∃ l, levelAt m.price (b.half (decide (m.side = 0))).ladder = some l ∧
      restingCount b.orders.live m.place ≤ l.orderCount.toNat ∧
      restingQty b.orders.live m.place ≤ l.totalQty.toNat

/-- A cancel or trade of a live order finds its level, takes no more from it than it holds and
returns `true`. -/
def Settles {M : Nat} (b : HotOrderBook M) (e : Event) : Prop :=
  ∀ m, b.orderMeta e.orderId = some m →
    (∃ i, (b.half (decide (m.side = 0))).findLevel (decide (m.side = 0)) m.price = some i ∧
      (if e.qty = 0 ∨ m.qty ≤ e.qty then m.qty else e.qty) ≤
        ((b.half (decide (m.side = 0))).cell i).totalQty ∧
      min e.qty m.qty ≤ ((b.half (decide (m.side = 0))).cell i).totalQty ∧
      1 ≤ ((b.half (decide (m.side = 0))).cell i).orderCount) ∧
    (b.cancelOrder e).2 = true ∧ (b.trade e).2 = true

theorem backed_of_covered {M adds : Nat} {b : HotOrderBook M} (h : b.view.Covered adds) :
    b.Backed := by
  intro orderId m hm
  rw [orderMeta, ← OrderSlab.live_get] at hm
  have hpos : 1 ≤ restingCount b.view.orders m.place := restingCount_pos hm
  have hc := h.keeps m.place
  cases hd : b.view.depth m.place with
  | none =>
    rw [hd] at hc
    exact absurd hpos (by rw [show restingCount b.view.orders m.place = 0 from hc]; omega)
  | some l =>
    rw [hd] at hc
    obtain ⟨hq, hn, _⟩ := hc
    rw [view_depth] at hd
    exact ⟨l, hd, hn, hq⟩

/-- The level of a live order is found by the search and carries the order. -/
theorem found_of_backed {M : Nat} {b : HotOrderBook M} (hg : b.Grid) (hb : b.Backed)
    {orderId : UInt64} {m : OrderMeta} (hm : b.orderMeta orderId = some m) :
    ∃ i, (b.half (decide (m.side = 0))).findLevel (decide (m.side = 0)) m.price = some i ∧
      m.qty ≤ ((b.half (decide (m.side = 0))).cell i).totalQty ∧
      1 ≤ ((b.half (decide (m.side = 0))).cell i).orderCount := by
  obtain ⟨l, hl, hn, hq⟩ := hb orderId m hm
  rw [orderMeta, ← OrderSlab.live_get] at hm
  have hpos := restingCount_pos hm
  have hqty := qty_le_restingQty hm
  have hw := half_wf hg (decide (m.side = 0))
  cases hf : (b.half (decide (m.side = 0))).findLevel (decide (m.side = 0)) m.price with
  | none =>
    rw [(HalfBook.findLevel_none hw hf).1] at hl
    exact absurd hl (by simp)
  | some i =>
    rw [(HalfBook.findLevel_some hw hf).2.2.2] at hl
    rw [← Option.some.inj hl] at hn hq
    exact ⟨i, rfl, UInt64.le_iff_toNat_le.mpr (by omega), UInt32.le_iff_toNat_le.mpr
      (show 1 ≤ _ by omega)⟩

theorem settles_of_backed {M : Nat} {b : HotOrderBook M} (hw : b.Wf) (hb : b.Backed) {e : Event}
    (hid : e.orderId ≠ 0) : b.Settles e := by
  intro m hm
  obtain ⟨i, hf, hqty, hone⟩ := found_of_backed hw.grid hb hm
  obtain ⟨l, hl, _⟩ := hb e.orderId m hm
  have hside (o : ExtTreeMap UInt64 OrderMeta) :
      levelAt m.price (({ b.view with orders := o } : Book).side (decide (m.side = 0))) = some l := by
    rw [← hl, ← view_side]
    rfl
  have hv : b.view.orders[e.orderId]? = some m := by
    rw [← hm, orderMeta, ← OrderSlab.live_get]
    rfl
  refine ⟨⟨i, hf, ?_, UInt64.le_trans (fill_le e.qty m.qty) hqty, hone⟩, ?_, ?_⟩
  · split_ifs with hfull
    · exact hqty
    · exact UInt64.le_trans (UInt64.le_of_lt (UInt64.not_le.mp (not_or.mp hfull).2)) hqty
  · rw [(hw.cancelOrder_refines e).2.2, Book.cancelOrder, if_pos hid, hv]
    dsimp only
    split_ifs <;> simp only [Book.deductOn, hside, Option.isSome_some]
  · rw [(hw.trade_refines e).2.2, Book.trade, if_neg hid, hv]
    dsimp only
    split_ifs <;> simp only [Book.deductOn, hside, Option.isSome_some]

end HotOrderBook

/-- Along every order-id stream of fewer than 2^31 events, duplicate and refused adds and
modifies included, each live order is backed by its level, so cancels and trades settle. -/
theorem hotBook_covered (M : Nat) (instrumentId : UInt32) (es : List Event)
    (hev : ∀ e ∈ es, OrderIdEvent e) (hlen : es.length < 2 ^ 31) :
    ((HotOrderBook.new M instrumentId).run es).Backed ∧
      ∀ e, e.orderId ≠ 0 → ((HotOrderBook.new M instrumentId).run es).Settles e := by
  obtain ⟨hw, hv⟩ := HotOrderBook.short_run_refines M instrumentId es (by omega)
  have hb : ((HotOrderBook.new M instrumentId).run es).Backed :=
    HotOrderBook.backed_of_covered (by rw [hv]; exact Book.covered_run M es hev hlen)
  exact ⟨hb, fun e hid => HotOrderBook.settles_of_backed hw hb hid⟩

/-- A duplicate add and a partial modify on one level, both of which leave quantity behind. -/
theorem hotBook_covered_leaks :
    ((HotOrderBook.new 1 1).run [⟨0, 10, 5, 1, 1, 1, 0⟩, ⟨1, 10, 6, 1, 1, 1, 0⟩,
      ⟨2, 10, 2, 1, 1, 3, 0⟩]).Settles ⟨3, 0, 0, 1, 1, 2, 0⟩ := by
  refine (hotBook_covered 1 1 _ ?_ (by decide)).2 _ (by decide)
  intro e he
  fin_cases he <;> exact ⟨by decide, by decide, by decide⟩

end Flowlab.Core
