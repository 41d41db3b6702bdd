import Flowlab.Core.OrderSlab
import Flowlab.Framework.KeyedList
import Flowlab.Framework.FixedArray

namespace Flowlab.Core

open Framework

/-- `slice::partition_point`: the length of the leading run that satisfies `p`. -/
def partitionPoint (p : Level → Bool) (l : List Level) : Nat := (l.takeWhile p).length

/-- One side of the price grid: the fixed array and its live count
(`bids` with `bid_count`, `asks` with `ask_count`). -/
@[ext] structure HalfBook (M : Nat) where
  levels : Vector Level M
  count : UInt32

namespace HalfBook

def empty (M : Nat) : HalfBook M := ⟨Vector.replicate M default, 0⟩

/-- The live cells `levels[..count]`. -/
def ladder {M : Nat} (h : HalfBook M) : List Level := h.levels.toList.take h.count.toNat

/-- The cell `levels[i]`. -/
def cell {M : Nat} (h : HalfBook M) (i : Nat) : Level := h.levels.toList.getD i default

def setCell {M : Nat} (h : HalfBook M) (i : Nat) (l : Level) : HalfBook M :=
  { h with levels := h.levels.setIfInBounds i l }

/-- The binary search shared by `add_order` and `find_level`. -/
def insertionPoint {M : Nat} (h : HalfBook M) (isBid : Bool) (price : UInt64) : Nat :=
  if isBid then partitionPoint (fun l => decide (l.price > price)) h.ladder
  else partitionPoint (fun l => decide (l.price < price)) h.ladder

def findLevel {M : Nat} (h : HalfBook M) (isBid : Bool) (price : UInt64) : Option Nat :=
  let pos := h.insertionPoint isBid price
  if pos < h.count.toNat ∧ (h.cell pos).price = price then some pos else none

def removeLevel {M : Nat} (h : HalfBook M) (i : Nat) : HalfBook M :=
  let cnt := h.count.toNat
  let levels :=
    if i < cnt - 1 then FixedArray.memmove h.levels i (i + 1) (cnt - i - 1) else h.levels
  { levels := levels.setIfInBounds (cnt - 1) default, count := UInt32.ofNat (cnt - 1) }

/-- The ladder part of `add_order`; `none` is the refusal of a new level on a full grid. -/
def addLevel {M : Nat} (h : HalfBook M) (isBid : Bool) (price qty : UInt64) :
    Option (HalfBook M) :=
  let cnt := h.count.toNat
  let pos := h.insertionPoint isBid price
  if pos < cnt ∧ (h.cell pos).price = price then
    let l := h.cell pos
    some (h.setCell pos { l with totalQty := l.totalQty + qty, orderCount := l.orderCount + 1 })
  else if M ≤ cnt then none
  else
    let levels :=
      if pos < cnt then FixedArray.memmove h.levels (pos + 1) pos (cnt - pos) else h.levels
    some { levels := levels.setIfInBounds pos ⟨price, qty, 1⟩, count := UInt32.ofNat (cnt + 1) }

/-- The ladder part of `cancel_order`, of a partial fill and of `trade_full_fill`: take `qty` off
the level at `price` and, when the order is released, one order; drop a level left without orders. -/
def deduct {M : Nat} (h : HalfBook M) (isBid : Bool) (price qty : UInt64) (release : Bool) :
    HalfBook M × Bool :=
  match h.findLevel isBid price with
  | none => (h, false)
  | some i =>
    let l := { h.cell i with totalQty := satSub64 (h.cell i).totalQty qty }
    if release then
      let l := { l with orderCount := satSub32 l.orderCount 1 }
      let h := h.setCell i l
      if l.orderCount = 0 then (h.removeLevel i, true) else (h, true)
    else (h.setCell i l, true)

/-- The ladder part of `trade_anon`: an order is released only when the level runs empty. -/
def deductAnon {M : Nat} (h : HalfBook M) (isBid : Bool) (price qty : UInt64) :
    HalfBook M × Bool :=
  match h.findLevel isBid price with
  | none => (h, false)
  | some i =>
    let l := { h.cell i with totalQty := satSub64 (h.cell i).totalQty qty }
    if l.totalQty = 0 then
      let l := { l with orderCount := satSub32 l.orderCount 1 }
      let h := h.setCell i l
      if l.orderCount = 0 then (h.removeLevel i, true) else (h, true)
    else (h.setCell i l, true)

end HalfBook

/-- The fixed-depth book of `hot_book.rs`, generic over its `MAX_LEVELS`. -/
@[ext] structure HotOrderBook (M : Nat) where
  instrumentId : UInt32
  bids : HalfBook M
  asks : HalfBook M
  orders : OrderSlab

namespace HotOrderBook

def new (M : Nat) (instrumentId : UInt32) : HotOrderBook M :=
  ⟨instrumentId, HalfBook.empty M, HalfBook.empty M, OrderSlab.empty⟩

def half {M : Nat} (b : HotOrderBook M) (isBid : Bool) : HalfBook M :=
  if isBid then b.bids else b.asks

def setHalf {M : Nat} (b : HotOrderBook M) (isBid : Bool) (h : HalfBook M) : HotOrderBook M :=
  if isBid then { b with bids := h } else { b with asks := h }

def orderMeta {M : Nat} (b : HotOrderBook M) (orderId : UInt64) : Option OrderMeta :=
  b.orders.get orderId

def addOrder {M : Nat} (b : HotOrderBook M) (e : Event) : HotOrderBook M × Bool :=
  let isBid := decide (e.side = 0)
  match (b.half isBid).addLevel isBid e.price e.qty with
  | none => (b, false)
  | some h =>
    let b := b.setHalf isBid h
    if e.orderId ≠ 0 then
      ({ b with orders := b.orders.insert e.orderId ⟨e.price, e.qty, e.side⟩ }, true)
    else (b, true)

/-- `deduct` on the side the event resolved to. -/
def deductOn {M : Nat} (b : HotOrderBook M) (isBid : Bool) (price qty : UInt64) (release : Bool) :
    HotOrderBook M × Bool :=
  let r := (b.half isBid).deduct isBid price qty release
  (b.setHalf isBid r.1, r.2)

def cancelOrder {M : Nat} (b : HotOrderBook M) (e : Event) : HotOrderBook M × Bool :=
  if e.orderId ≠ 0 then
    match b.orders.get e.orderId with
    | none => (b, false)
    | some m =>
      let isBid := decide (m.side = 0)
      if e.qty = 0 ∨ m.qty ≤ e.qty then
        { b with orders := (b.orders.remove e.orderId).1 }.deductOn isBid m.price m.qty true
      else
        { b with orders := b.orders.setMeta e.orderId { m with qty := m.qty - e.qty } }.deductOn
          isBid m.price e.qty false
  else b.deductOn (decide (e.side = 0)) e.price e.qty true

def tradeFullFill {M : Nat} (b : HotOrderBook M) (orderId price fill : UInt64) (isBid : Bool) :
    HotOrderBook M × Bool :=
  { b with orders := (b.orders.remove orderId).1 }.deductOn isBid price fill true

def tradeAnon {M : Nat} (b : HotOrderBook M) (price qty : UInt64) (isBid : Bool) :
    HotOrderBook M × Bool :=
  let r := (b.half isBid).deductAnon isBid price qty
  (b.setHalf isBid r.1, r.2)

def trade {M : Nat} (b : HotOrderBook M) (e : Event) : HotOrderBook M × Bool :=
  if e.orderId = 0 then b.tradeAnon e.price e.qty (decide (e.side = 0))
  else
    match b.orders.get e.orderId with
    | none => (b, false)
    | some m =>
      let fill := min e.qty m.qty
      let newQty := m.qty - fill
      let isBid := decide (m.side = 0)
      if newQty ≠ 0 then
        { b with orders := b.orders.setMeta e.orderId { m with qty := newQty } }.deductOn
          isBid m.price fill false
      else b.tradeFullFill e.orderId m.price fill isBid

/-- Apply one event; the flag is the value `apply` returns. -/
def apply {M : Nat} (b : HotOrderBook M) (e : Event) : HotOrderBook M × Bool :=
  match EventType.fromU8 e.eventType with
  | none => (b, false)
  | some .orderAdd => b.addOrder e
  | some .orderCancel => b.cancelOrder e
  | some .orderModify => (b.cancelOrder e).1.addOrder e
  | some .trade => b.trade e
  | some .bookSnapshot => (b, false)

def run {M : Nat} (b : HotOrderBook M) (es : List Event) : HotOrderBook M :=
  es.foldl (fun b e => (b.apply e).1) b

/-- Reached from the empty book by some finite event sequence. -/
def Reachable {M : Nat} (b : HotOrderBook M) : Prop :=
  ∃ instrumentId es, b = (new M instrumentId).run es

end HotOrderBook

end Flowlab.Core
