import Flowlab.Core.State

namespace Flowlab.Chaos

open Std
open Framework
open Flowlab.Core (Event EventType OrderMeta)

inductive ChaosKind where
  | quoteStuff
  | phantomLiquidity
  | spoof
  | cancellationStorm
  | momentumIgnition
  | flashCrash
  | latencyArbitrage
  deriving DecidableEq, Repr

/-- Pattern-specific metrics. -/
structure ChaosFeatures where
  eventCount : UInt64
  durationNs : UInt64
  cancelTradeRatio : Float
  priceDisplacement : Int64
  depthRemoved : UInt64

/-- What a detector reports. -/
structure ChaosEvent where
  kind : ChaosKind
  startSeq : UInt64
  endSeq : UInt64
  startTsNs : UInt64
  endTsNs : UInt64
  severity : Float
  initiator : Option UInt64
  features : ChaosFeatures

/-- `u64::saturating_add`. -/
def satAdd64 (a b : UInt64) : UInt64 := UInt64.ofNat (min (a.toNat + b.toNat) (2 ^ 64 - 1))

theorem satAdd64_toNat (a b : UInt64) :
    (satAdd64 a b).toNat = min (a.toNat + b.toNat) (2 ^ 64 - 1) := by
  rw [satAdd64, UInt64.toNat_ofNat', Nat.mod_eq_of_lt (by omega)]

/-- `u32::saturating_add`. -/
def satAdd32 (a b : UInt32) : UInt32 := UInt32.ofNat (min (a.toNat + b.toNat) (2 ^ 32 - 1))

theorem satAdd32_toNat (a b : UInt32) :
    (satAdd32 a b).toNat = min (a.toNat + b.toNat) (2 ^ 32 - 1) := by
  rw [satAdd32, UInt32.toNat_ofNat', Nat.mod_eq_of_lt (by omega)]

theorem toNat_min32 (a b : UInt32) : (min a b).toNat = min a.toNat b.toNat := by
  show (if a ≤ b then a else b).toNat = _
  split_ifs with h
  · exact (min_eq_left (UInt32.le_iff_toNat_le.mp h)).symm
  · have := UInt32.lt_iff_toNat_lt.mp (UInt32.not_le.mp h)
    omega

theorem toNat_max32 (a b : UInt32) : (max a b).toNat = max a.toNat b.toNat := by
  show (if a ≤ b then b else a).toNat = _
  split_ifs with h
  · exact (max_eq_right (UInt32.le_iff_toNat_le.mp h)).symm
  · exact (max_eq_left (UInt32.lt_iff_toNat_lt.mp (UInt32.not_le.mp h)).le).symm

theorem toNat_max64 (a b : UInt64) : (max a b).toNat = max a.toNat b.toNat := by
  show (if a ≤ b then b else a).toNat = _
  split_ifs with h
  · exact (max_eq_right (UInt64.le_iff_toNat_le.mp h)).symm
  · exact (max_eq_left (UInt64.lt_iff_toNat_lt.mp (UInt64.not_le.mp h)).le).symm

/-- `f64::clamp`. -/
def clampF64 (x lo hi : Float) : Float :=
  let x := if x < lo then lo else x
  if x > hi then hi else x

/-- Distance of two prices in basis points of the first, computed in `u128`. -/
def bpsMove (start stop : UInt64) : UInt32 :=
  if start = 0 then 0
  else
    let diff := if start ≤ stop then stop - start else start - stop
    UInt32.ofNat (min (diff.toNat * 10000 / start.toNat) (2 ^ 32 - 1))

inductive AggressorSide where
  | buy
  | sell
  deriving DecidableEq, Repr

@[ext] structure ResolvedBookUpdate where
  side : UInt8
  price : UInt64
  qty : UInt64
  deriving DecidableEq, Repr

structure ResolvedTrade where
  update : ResolvedBookUpdate
  aggressor : AggressorSide
  deriving DecidableEq, Repr

/-- The live orders as a detector knows them. -/
@[ext] structure OrderTracker where
  orders : ExtTreeMap UInt64 OrderMeta

def anonymousUpdate (side : UInt8) (price qty : UInt64) : Option ResolvedBookUpdate :=
  if side = 0 ∨ side = 1 then some ⟨side, price, qty⟩ else none

def aggressorFromRestingSide (side : UInt8) : Option AggressorSide :=
  match side with
  | 0 => some .sell
  | 1 => some .buy
  | _ => none

def resolvedQty (knownQty eventQty : UInt64) : UInt64 :=
  if eventQty = 0 ∨ knownQty ≤ eventQty then knownQty else eventQty

namespace OrderTracker

def new : OrderTracker := ⟨∅⟩

def onAdd (t : OrderTracker) (e : Event) : OrderTracker × Option ResolvedBookUpdate :=
  match anonymousUpdate e.side e.price e.qty with
  | none => (t, none)
  | some update =>
    if e.orderId ≠ 0 then
      (⟨t.orders.insert e.orderId ⟨update.price, update.qty, update.side⟩⟩, some update)
    else (t, some update)

/-- `qty` leaves a known order, which goes with its last quantity. -/
def settle (t : OrderTracker) (orderId : UInt64) (m : OrderMeta) (qty : UInt64) : OrderTracker :=
  if m.qty ≤ qty then ⟨t.orders.erase orderId⟩
  else ⟨t.orders.insert orderId { m with qty := m.qty - qty }⟩

def onCancel (t : OrderTracker) (e : Event) : OrderTracker × Option ResolvedBookUpdate :=
  if e.orderId ≠ 0 then
    match t.orders[e.orderId]? with
    | some m =>
      let qty := resolvedQty m.qty e.qty
      (t.settle e.orderId m qty, some ⟨m.side, m.price, qty⟩)
    | none => if e.price = 0 then (t, none) else (t, anonymousUpdate e.side e.price e.qty)
  else (t, anonymousUpdate e.side e.price e.qty)

/-- A trade that no known order explains. -/
def anonymousTrade (e : Event) : Option ResolvedTrade :=
  match anonymousUpdate e.side e.price e.qty with
  | none => none
  | some update =>
    match aggressorFromRestingSide update.side with
    | none => none
    | some aggressor => some ⟨update, aggressor⟩

/-- A known order trades at the event's price when it carries one, at its own otherwise. -/
def onTrade (t : OrderTracker) (e : Event) : OrderTracker × Option ResolvedTrade :=
  if e.orderId ≠ 0 then
    match t.orders[e.orderId]? with
    | some m =>
      let qty := resolvedQty m.qty e.qty
      let update : ResolvedBookUpdate := ⟨m.side, if e.price ≠ 0 then e.price else m.price, qty⟩
      match aggressorFromRestingSide m.side with
      | none => (t, none)
      | some aggressor => (t.settle e.orderId m qty, some ⟨update, aggressor⟩)
    | none => if e.price = 0 then (t, none) else (t, anonymousTrade e)
  else (t, anonymousTrade e)

end OrderTracker

/-- The book a detector keeps for itself: quantity by price on each side, and the orders behind it. -/
@[ext] structure MiniBook where
  bids : ExtTreeMap UInt64 UInt64
  asks : ExtTreeMap UInt64 UInt64
  orderTracker : OrderTracker
  maxBookLevels : Nat

/-- The level farthest from the best: the lowest bid, the highest ask. -/
def farthest (book : ExtTreeMap UInt64 UInt64) (side : UInt8) : Option UInt64 :=
  if side = 0 then book.minKey? else book.maxKey?

/-- The eviction loop, with as many turns as there are levels. -/
def pruneLoop (side : UInt8) (cap : Nat) : Nat → ExtTreeMap UInt64 UInt64 → ExtTreeMap UInt64 UInt64
  | 0, book => book
  | n + 1, book =>
    if cap < book.size then
      match farthest book side with
      | some p => pruneLoop side cap n (book.erase p)
      | none => book
    else book

def pruneLevels (book : ExtTreeMap UInt64 UInt64) (side : UInt8) (cap : Nat) :
    ExtTreeMap UInt64 UInt64 :=
  pruneLoop side cap book.size book

namespace MiniBook

def new (maxBookLevels : Nat) : MiniBook := ⟨∅, ∅, .new, maxBookLevels⟩

/-- `book_mut`, read. -/
def book (b : MiniBook) (side : UInt8) : ExtTreeMap UInt64 UInt64 :=
  if side = 0 then b.bids else b.asks

/-- `book_mut`, written. -/
def setBook (b : MiniBook) (side : UInt8) (t : ExtTreeMap UInt64 UInt64) : MiniBook :=
  if side = 0 then { b with bids := t } else { b with asks := t }

def addQty (b : MiniBook) (side : UInt8) (price qty : UInt64) : MiniBook :=
  let book := (b.book side).insert price ((b.book side)[price]?.getD 0 + qty)
  b.setBook side (pruneLevels book side b.maxBookLevels)

def subQty (b : MiniBook) (side : UInt8) (price qty : UInt64) : MiniBook :=
  match (b.book side)[price]? with
  | none => b
  | some entry =>
    let take := if qty = 0 then entry else min qty entry
    if entry - take = 0 then b.setBook side ((b.book side).erase price)
    else b.setBook side ((b.book side).insert price (entry - take))

def bestBid (b : MiniBook) : Option UInt64 := b.bids.maxKey?

def bestAsk (b : MiniBook) : Option UInt64 := b.asks.minKey?

/-- Defined once both sides hold a level and the touch is not crossed. -/
def mid (bestBid bestAsk : Option UInt64) : Option UInt64 :=
  match bestBid, bestAsk with
  | some b, some a => if b ≤ a then some ((a + b) / 2) else none
  | _, _ => none

def midprice (b : MiniBook) : Option UInt64 := mid b.bestBid b.bestAsk

def onAdd (b : MiniBook) (e : Event) : MiniBook :=
  let r := b.orderTracker.onAdd e
  let b := { b with orderTracker := r.1 }
  match r.2 with
  | some u => b.addQty u.side u.price u.qty
  | none => b

def onCancel (b : MiniBook) (e : Event) : MiniBook :=
  let r := b.orderTracker.onCancel e
  let b := { b with orderTracker := r.1 }
  match r.2 with
  | some u => b.subQty u.side u.price u.qty
  | none => b

def onTrade (b : MiniBook) (e : Event) : MiniBook × Option ResolvedTrade :=
  let r := b.orderTracker.onTrade e
  let b := { b with orderTracker := r.1 }
  match r.2 with
  | some t => (b.subQty t.update.side t.update.price t.update.qty, some t)
  | none => (b, none)

/-- What one event makes of the book of every detector. -/
def apply (b : MiniBook) (e : Event) : MiniBook :=
  match EventType.fromU8 e.eventType with
  | some .orderAdd => b.onAdd e
  | some .orderCancel => b.onCancel e
  | some .trade => (b.onTrade e).1
  | _ => b

end MiniBook

end Flowlab.Chaos
