import Flowlab.Chaos.CrashGate
import Flowlab.Chaos.TwoLevels

namespace Flowlab.Chaos

open Std Framework
open Flowlab.Core (Event EventType Side OrderMeta SequencedEvent)

/-- The half of the sum of a bid and the near ask. -/
theorem mid_rungs {base : UInt64} (hbase : Clear base) (near : Bool) :
    MiniBook.mid (some (rung base .bid near)) (some (rung base .ask true)) =
      some (if near then base else base - 100) := by
  have hlo := hbase.lo
  have hhi := hbase.hi
  have hbid := bid_toNat base near
  have hask := ask_toNat hbase true
  have h100 : (100 : UInt64).toNat = 100 := rfl
  have h2 : (2 : UInt64).toNat = 2 := rfl
  rw [if_pos rfl] at hask
  have hle : rung base .bid near ≤ rung base .ask true := by
    rw [UInt64.le_iff_toNat_le]
    omega
  have hbelow : (base - 100).toNat = base.toNat - 100 :=
    UInt64.toNat_sub_of_le _ _ (UInt64.le_iff_toNat_le.mpr (by omega))
  rw [MiniBook.mid, if_pos hle]
  congr 1
  apply UInt64.toNat_inj.mp
  rw [UInt64.toNat_div, UInt64.toNat_add, hbid, hask, h2]
  cases near with
  | true =>
    rw [if_pos rfl, if_pos rfl, Nat.mod_eq_of_lt (by omega)]
    omega
  | false =>
    rw [if_neg Bool.false_ne_true, if_neg Bool.false_ne_true, hbelow, Nat.mod_eq_of_lt (by omega)]
    omega

namespace Cells

variable {base : UInt64} {c : Cells} {s : Side}

theorem best_near (h : c.get s true ≠ none) : c.best base s = some (rung base s true) := if_pos h

theorem best_far (h : c.get s true = none) (hfar : c.get s false ≠ none) :
    c.best base s = some (rung base s false) := (if_neg (not_not.mpr h)).trans (if_pos hfar)

theorem best_none (h : c.get s true = none) (hfar : c.get s false = none) :
    c.best base s = none := (if_neg (not_not.mpr h)).trans (if_neg (not_not.mpr hfar))

theorem best_ne_none (near : Bool) (h : c.get s near ≠ none) : c.best base s ≠ none := by
  by_cases hnear : c.get s true = none
  · have hfar : c.get s false ≠ none := by
      cases near with
      | true => exact absurd hnear h
      | false => exact h
    rw [best_far hnear hfar]
    exact Option.some_ne_none _
  · rw [best_near hnear]
    exact Option.some_ne_none _

/-- The near ask is there where the far one is. -/
def Proper (c : Cells) : Prop := c.nearAsk = none → c.farAsk = none

/-- With the near ask at the touch the mid is the base price, or 100 ticks below it once the near bid
is gone. -/
theorem mid_cases (hbase : Clear base) (hc : c.Proper) :
    (c.best base .bid = none ∨ c.best base .ask = none) ∨
      c.best base .ask = some (rung base .ask true) ∧
        c.best base .bid = some (rung base .bid (c.nearBid.isSome)) ∧
        MiniBook.mid (c.best base .bid) (c.best base .ask) =
          some (if c.nearBid.isSome then base else base - 100) := by
  by_cases hask : c.nearAsk = none
  · exact .inl (.inr (best_none hask (hc hask)))
  · have hbest : c.best base .ask = some (rung base .ask true) := best_near hask
    cases hbid : c.nearBid with
    | some v =>
      have hnear : c.best base .bid = some (rung base .bid true) :=
        best_near (hbid.trans_ne (Option.some_ne_none v))
      exact .inr ⟨hbest, hnear, by rw [hnear, hbest]; exact mid_rungs hbase true⟩
    | none =>
      by_cases hfar : c.farBid = none
      · exact .inl (.inl (best_none hbid hfar))
      · have hlow : c.best base .bid = some (rung base .bid false) := best_far hbid hfar
        exact .inr ⟨hbest, hlow, by rw [hlow, hbest]; exact mid_rungs hbase false⟩

end Cells

namespace FlashCrashDetector

/-- The detector has the book of these cells, with the caches that go with it, and knows these
orders. -/
structure Holds (base : UInt64) (c : Cells) (orders : ExtTreeMap UInt64 OrderMeta)
    (d : FlashCrashDetector) : Prop where
  caches : d.CachesHold
  rests : Rests base c d.toMiniBook
  proper : c.Proper
  orders : d.orderTracker.orders = orders

namespace Holds

variable {base : UInt64} {c : Cells} {orders : ExtTreeMap UInt64 OrderMeta} {d : FlashCrashDetector}
  (hbase : Clear base)

theorem sameCaches {d' : FlashCrashDetector} (h : Holds base c orders d) (hs : SameCaches d d') :
    Holds base c orders d' :=
  ⟨hs.cachesHold h.caches, hs.same.book ▸ h.rests, h.proper, hs.same.book ▸ h.orders⟩

include hbase

theorem touch (h : Holds base c orders d) :
    d.cachedBb = c.best base .bid ∧ d.cachedBa = c.best base .ask :=
  ⟨(h.caches.best .bid).trans (h.rests.bestKey_eq hbase .bid),
    (h.caches.best .ask).trans (h.rests.bestKey_eq hbase .ask)⟩

theorem held (h : Holds base c orders d) : d.held = c.qty .bid + c.qty .ask :=
  congrArg₂ (· + ·) (h.rests.heldQty_eq hbase .bid) (h.rests.heldQty_eq hbase .ask)

/-- The mid is undefined, or it is one of two prices and half of a sum that fits. -/
theorem mid_cases (h : Holds base c orders d) :
    d.midFits = true ∧
      (d.midprice = none ∨ d.midprice = some (if c.nearBid.isSome then base else base - 100)) := by
  obtain ⟨hbb, hba⟩ := h.touch hbase
  rw [midFits, midprice, hbb, hba]
  rcases Cells.mid_cases hbase h.proper with (hnone | hnone) | ⟨hask, hbid, hmid⟩
  · rw [hnone]
    exact ⟨rfl, .inl rfl⟩
  · rw [hnone]
    cases c.best base .bid <;> exact ⟨rfl, .inl rfl⟩
  · refine ⟨?_, .inr hmid⟩
    rw [hask, hbid]
    have hlo := hbase.lo
    have hhi := hbase.hi
    have hb := bid_toNat base c.nearBid.isSome
    have ha := ask_toNat hbase true
    rw [if_pos rfl] at ha
    refine decide_eq_true fun _ => ?_
    rw [hb, ha]
    split_ifs <;> omega

/-- With both sides at the touch. -/
theorem mid_of_touch (h : Holds base c orders d) (hbid : c.best base .bid ≠ none)
    (hask : c.best base .ask ≠ none) :
    d.midprice = some (if c.nearBid.isSome then base else base - 100) := by
  obtain ⟨hbb, hba⟩ := h.touch hbase
  rw [midprice, hbb, hba]
  rcases Cells.mid_cases hbase h.proper with (hnone | hnone) | ⟨-, -, hmid⟩
  · exact absurd hnone hbid
  · exact absurd hnone hask
  · exact hmid

variable {oid : UInt64} (hoid : oid ≠ 0)

include hoid

theorem add (h : Holds base c orders d) (s : Side) (near : Bool) (qty seq ts : UInt64)
    (hroom : c.qty .bid + c.qty .ask + qty.toNat < 2 ^ 64) {c' : Cells}
    (hc' : c.set s near (some ((c.get s near).getD 0 + qty)) = c') (hproper : c'.Proper) :
    Holds base c' (orders.insert oid ⟨rung base s near, qty, s.toU8⟩)
      (d.entered (Chaos.mk seq ts .orderAdd s (rung base s near) qty oid)) := by
  let ev := Chaos.mk seq ts .orderAdd s (rung base s near) qty oid
  have hbook : (d.entered ev).toMiniBook = d.toMiniBook.onAdd ev.event :=
    (mutate_orderAdd_book _ ev.event).trans (by rw [snapBefore_book])
  have hcaches : (d.entered ev).CachesHold :=
    (h.caches.snapBefore ev).mutate .orderAdd ev.event fun _ => by
      rw [held_snapBefore, h.held hbase]
      exact hroom
  obtain ⟨hrests, horders⟩ := h.rests.onAdd hbase hoid s near qty seq ts
  rw [hc'] at hrests
  refine ⟨hcaches, ?_, hproper, ?_⟩
  · rw [hbook]
    exact hrests
  · rw [← h.orders, hbook]
    exact horders

theorem cancel (h : Holds base c orders d) (s : Side) (near : Bool) {known qty : UInt64}
    (seq ts : UInt64) (hqty : qty ≠ 0) (hle : qty ≤ known)
    (horder : orders[oid]? = some ⟨rung base s near, known, s.toU8⟩) {c' : Cells}
    (hc' : c.set s near (lessened qty (c.get s near)) = c') (hproper : c'.Proper) :
    Holds base c' ((OrderTracker.mk orders).settle oid ⟨rung base s near, known, s.toU8⟩ qty).orders
      (d.entered (Chaos.mk seq ts .orderCancel s (rung base s near) qty oid)) := by
  let ev := Chaos.mk seq ts .orderCancel s (rung base s near) qty oid
  have hbook : (d.entered ev).toMiniBook = d.toMiniBook.onCancel ev.event :=
    (mutate_orderCancel_book _ ev.event).trans (by rw [snapBefore_book])
  have hcaches : (d.entered ev).CachesHold :=
    (h.caches.snapBefore ev).mutate .orderCancel ev.event fun ht => by cases ht
  obtain ⟨hrests, horders⟩ :=
    h.rests.onCancel hbase hoid s near seq ts hqty hle (h.orders ▸ horder)
  rw [hc'] at hrests
  refine ⟨hcaches, ?_, hproper, ?_⟩
  · rw [hbook]
    exact hrests
  · rw [← h.orders, hbook]
    exact congrArg OrderTracker.orders horders

theorem trade (h : Holds base c orders d) (s : Side) (near : Bool) (qty seq ts : UInt64)
    (hprice : rung base s near ≠ 0) (horder : orders[oid]? = none) {c' : Cells}
    (hc' : c.set s near (lessened qty (c.get s near)) = c') (hproper : c'.Proper) :
    Holds base c' orders (d.entered (Chaos.mk seq ts .trade s (rung base s near) qty oid)) := by
  let ev := Chaos.mk seq ts .trade s (rung base s near) qty oid
  have hbook : (d.entered ev).toMiniBook = (d.toMiniBook.onTrade ev.event).1 :=
    (mutate_trade_book _ ev.event).trans (by rw [snapBefore_book])
  have hcaches : (d.entered ev).CachesHold :=
    (h.caches.snapBefore ev).mutate .trade ev.event fun ht => by cases ht
  obtain ⟨hrests, horders⟩ :=
    h.rests.onTrade hbase hoid s near qty seq ts hprice (h.orders ▸ horder)
  rw [hc'] at hrests
  refine ⟨hcaches, ?_, hproper, ?_⟩
  · rw [hbook]
    exact hrests
  · rw [← h.orders, hbook]
    exact congrArg OrderTracker.orders horders

end Holds

/-! The counters and the snapshots. -/

structure SameCounters (d d' : FlashCrashDetector) : Prop where
  buy : d'.buyAggr = d.buyAggr
  sell : d'.sellAggr = d.sellAggr
  refractory : d'.refractoryUntil = d.refractoryUntil

theorem SameCounters.trans {d d' d'' : FlashCrashDetector} (h : SameCounters d d')
    (h' : SameCounters d' d'') : SameCounters d d'' :=
  ⟨h'.buy.trans h.buy, h'.sell.trans h.sell, h'.refractory.trans h.refractory⟩

theorem SameButBook.counters {d d' : FlashCrashDetector} (hs : SameButBook d d') :
    SameCounters d d' ∧ d'.window = d.window ∧ d'.snaps = d.snaps := by
  obtain ⟨m, bb, ba, depth, valid, rfl⟩ := hs
  exact ⟨⟨rfl, rfl, rfl⟩, rfl, rfl⟩

theorem sameCounters_pushSnap (d : FlashCrashDetector) (snap : TopSnapshot) :
    SameCounters d (d.pushSnap snap) := by
  rw [pushSnap]
  dsimp only
  split_ifs <;> exact ⟨rfl, rfl, rfl⟩

theorem sameCounters_snapBefore (d : FlashCrashDetector) (ev : SequencedEvent) :
    SameCounters d (d.snapBefore ev) := by
  cases hmid : d.midprice with
  | none => exact (snapBefore_none hmid ev).symm ▸ ⟨rfl, rfl, rfl⟩
  | some m =>
    rw [snapBefore_some hmid]
    exact d.sameButBook_depthInBand.counters.1.trans (sameCounters_pushSnap _ _)

/-- Whatever the event, the ring is that of the snapshot before it. -/
theorem entered_frame (d : FlashCrashDetector) {ev : SequencedEvent} {t : EventType}
    (ht : EventType.fromU8 ev.event.eventType = some t) :
    (d.entered ev).refractoryUntil = d.refractoryUntil ∧
      (d.entered ev).window = (d.snapBefore ev).window ∧
      (d.entered ev).snaps = (d.snapBefore ev).snaps := by
  have hcounted : ((d.snapBefore ev).counted t ev.event).refractoryUntil = d.refractoryUntil ∧
      ((d.snapBefore ev).counted t ev.event).window = (d.snapBefore ev).window ∧
      ((d.snapBefore ev).counted t ev.event).snaps = (d.snapBefore ev).snaps := by
    rw [← (sameCounters_snapBefore d ev).refractory]
    cases t with
    | trade =>
      simp only [counted]
      cases ((d.snapBefore ev).orderTracker.onTrade ev.event).2 with
      | none => exact ⟨rfl, rfl, rfl⟩
      | some r =>
        obtain ⟨u, aggressor⟩ := r
        cases aggressor <;> exact ⟨rfl, rfl, rfl⟩
    | orderAdd => exact ⟨rfl, rfl, rfl⟩
    | orderCancel => exact ⟨rfl, rfl, rfl⟩
    | orderModify => exact ⟨rfl, rfl, rfl⟩
    | bookSnapshot => exact ⟨rfl, rfl, rfl⟩
  obtain ⟨hcounters, hwindow, hsnaps⟩ := (sameButBook_mutate (d.snapBefore ev) t ev.event).counters
  rw [entered, ht]
  exact ⟨hcounters.refractory.trans hcounted.1, hwindow.trans hcounted.2.1,
    hsnaps.trans hcounted.2.2⟩

/-- An add or a cancel counts nothing. -/
theorem entered_uncounted (d : FlashCrashDetector) (et : EventType) (het : et ≠ .trade) (s : Side)
    (seq ts price qty oid : UInt64) :
    SameCounters d (d.entered (Chaos.mk seq ts et s price qty oid)) := by
  let ev := Chaos.mk seq ts et s price qty oid
  have htype : EventType.fromU8 ev.event.eventType = some et := by cases et <;> rfl
  have hcounted : (d.snapBefore ev).counted et ev.event = d.snapBefore ev := by
    cases et <;> first | rfl | exact absurd rfl het
  have hsame : SameButBook (d.snapBefore ev) (d.entered ev) := by
    have h := sameButBook_mutate (d.snapBefore ev) et ev.event
    rw [hcounted] at h
    rw [entered, htype]
    exact h
  exact (sameCounters_snapBefore d ev).trans hsame.counters.1

/-- A trade against a bid of no known order counts a seller. -/
theorem entered_sell (d : FlashCrashDetector) {oid price : UInt64} (hoid : oid ≠ 0)
    (hprice : price ≠ 0) (horder : d.orderTracker.orders[oid]? = none) (seq ts qty : UInt64) :
    SameCounters (d.countAggressor .sell) (d.entered (Chaos.mk seq ts .trade .bid price qty oid)) := by
  let ev := Chaos.mk seq ts .trade .bid price qty oid
  have htrade : ((d.snapBefore ev).orderTracker.onTrade ev.event).2 =
      some ⟨⟨Side.bid.toU8, price, qty⟩, .sell⟩ := by
    rw [snapBefore_book, OrderTracker.onTrade_mk hoid seq ts .bid hprice qty horder]
    rfl
  have hsame : SameButBook ((d.snapBefore ev).countAggressor .sell) (d.entered ev) := by
    have h := sameButBook_mutate (d.snapBefore ev) .trade ev.event
    simp only [counted, htrade] at h
    exact h
  obtain ⟨hbuy, hsell, hrefractory⟩ := sameCounters_snapBefore d ev
  have hcounted : SameCounters (d.countAggressor .sell)
      ((d.snapBefore ev).countAggressor .sell) :=
    ⟨hbuy, congrArg (satAdd32 · 1) hsell, hrefractory⟩
  exact hcounted.trans hsame.counters.1

end FlashCrashDetector

end Flowlab.Chaos
