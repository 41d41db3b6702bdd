import Flowlab.Core.Event
import Flowlab.Framework.KeyedList
import Flowlab.Framework.FiniteMap

namespace Flowlab.Core

open Std Framework

/-- The level filed under `price` on a ladder. -/
abbrev levelAt (price : UInt64) (l : List Level) : Option Level :=
  KeyedList.lookup Level.price price l

/-- One more order of `qty` at `price`. -/
def added (price qty : UInt64) : Option Level → Option Level
  | none => some ⟨price, qty, 1⟩
  | some l => some { l with totalQty := l.totalQty + qty, orderCount := l.orderCount + 1 }

/-- `qty` leaves the level, with one order when `release`; a level without orders disappears. -/
def deducted (qty : UInt64) (release : Bool) : Option Level → Option Level
  | none => none
  | some l =>
    let l := { l with totalQty := satSub64 l.totalQty qty }
    if release then
      let l := { l with orderCount := satSub32 l.orderCount 1 }
      if l.orderCount = 0 then none else some l
    else some l

/-- `qty` leaves the level anonymously: an order is released only with the last quantity. -/
def deductedAnon (qty : UInt64) : Option Level → Option Level
  | none => none
  | some l =>
    let l := { l with totalQty := satSub64 l.totalQty qty }
    if l.totalQty = 0 then
      let l := { l with orderCount := satSub32 l.orderCount 1 }
      if l.orderCount = 0 then none else some l
    else some l

/-- The book in the abstract: two ladders, best price first, and the live orders. It knows
nothing of arrays, slots or binary search; every implementation shows one. -/
@[ext] structure Book where
  bids : List Level
  asks : List Level
  orders : ExtTreeMap UInt64 OrderMeta

namespace Book

def empty : Book := ⟨[], [], ∅⟩

def side (k : Book) (isBid : Bool) : List Level := if isBid then k.bids else k.asks

def alterSide (k : Book) (isBid : Bool) (price : UInt64) (f : Option Level → Option Level) : Book :=
  let l := KeyedList.alter Level.price (ahead isBid) price f (k.side isBid)
  if isBid then { k with bids := l } else { k with asks := l }

/-- A new price needs a free level; a book of depth `M` has `M` of them on each side. -/
def addOrder (M : Nat) (k : Book) (e : Event) : Book × Bool :=
  let isBid := decide (e.side = 0)
  if levelAt e.price (k.side isBid) = none ∧ M ≤ (k.side isBid).length then (k, false)
  else
    let k := k.alterSide isBid e.price (added e.price e.qty)
    if e.orderId ≠ 0 then
      ({ k with orders := k.orders.insert e.orderId ⟨e.price, e.qty, e.side⟩ }, true)
    else (k, true)

def deductOn (k : Book) (isBid : Bool) (price qty : UInt64) (release : Bool) : Book × Bool :=
  (k.alterSide isBid price (deducted qty release), (levelAt price (k.side isBid)).isSome)

def cancelOrder (k : Book) (e : Event) : Book × Bool :=
  if e.orderId ≠ 0 then
    match k.orders[e.orderId]? with
    | none => (k, false)
    | some m =>
      let isBid := decide (m.side = 0)
      if e.qty = 0 ∨ m.qty ≤ e.qty then
        { k with orders := k.orders.erase e.orderId }.deductOn isBid m.price m.qty true
      else
        { k with orders := k.orders.insert e.orderId { m with qty := m.qty - e.qty } }.deductOn
          isBid m.price e.qty false
  else k.deductOn (decide (e.side = 0)) e.price e.qty true

def trade (k : Book) (e : Event) : Book × Bool :=
  if e.orderId = 0 then
    let isBid := decide (e.side = 0)
    (k.alterSide isBid e.price (deductedAnon e.qty), (levelAt e.price (k.side isBid)).isSome)
  else
    match k.orders[e.orderId]? with
    | none => (k, false)
    | some m =>
      let fill := min e.qty m.qty
      let isBid := decide (m.side = 0)
      if m.qty - fill ≠ 0 then
        { k with orders := k.orders.insert e.orderId { m with qty := m.qty - fill } }.deductOn
          isBid m.price fill false
      else { k with orders := k.orders.erase e.orderId }.deductOn isBid m.price fill true

def apply (M : Nat) (k : Book) (e : Event) : Book × Bool :=
  match EventType.fromU8 e.eventType with
  | none => (k, false)
  | some .orderAdd => k.addOrder M e
  | some .orderCancel => k.cancelOrder e
  | some .orderModify => (k.cancelOrder e).1.addOrder M e
  | some .trade => k.trade e
  | some .bookSnapshot => (k, false)

def run (M : Nat) (k : Book) (es : List Event) : Book := es.foldl (fun k e => (k.apply M e).1) k

/-- Both ladders strictly ordered, best price first. -/
structure Sorted (k : Book) : Prop where
  bids : KeyedList.Sorted Level.price (ahead true) k.bids
  asks : KeyedList.Sorted Level.price (ahead false) k.asks

end Book

theorem added_files (price qty : UInt64) :
    KeyedList.FilesUnder Level.price price (added price qty) := by
  intro o r ho h
  cases o with
  | none => rw [← Option.some.inj h]
  | some l =>
    rw [← Option.some.inj h]
    exact ho l rfl

theorem deducted_files (price qty : UInt64) (release : Bool) :
    KeyedList.FilesUnder Level.price price (deducted qty release) := by
  intro o r ho h
  cases o with
  | none => simp [deducted] at h
  | some l =>
    have hp : r.price = l.price := by
      simp only [deducted] at h
      split_ifs at h <;> rw [← Option.some.inj h]
    exact hp.trans (ho l rfl)

theorem deductedAnon_files (price qty : UInt64) :
    KeyedList.FilesUnder Level.price price (deductedAnon qty) := by
  intro o r ho h
  cases o with
  | none => simp [deductedAnon] at h
  | some l =>
    have hp : r.price = l.price := by
      simp only [deductedAnon] at h
      split_ifs at h <;> rw [← Option.some.inj h]
    exact hp.trans (ho l rfl)

namespace Book

/-! No event creates more than one live order. -/

theorem alterSide_orders (k : Book) (isBid : Bool) (price : UInt64)
    (f : Option Level → Option Level) : (k.alterSide isBid price f).orders = k.orders := by
  cases isBid <;> rfl

theorem size_addOrder (M : Nat) (k : Book) (e : Event) :
    (k.addOrder M e).1.orders.size ≤ k.orders.size + 1 := by
  simp only [addOrder]
  split_ifs
  · exact Nat.le_succ _
  · rw [alterSide_orders]
    exact ExtTreeMap.size_insert_le
  · rw [alterSide_orders]
    exact Nat.le_succ _

theorem size_cancelOrder (k : Book) (e : Event) :
    (k.cancelOrder e).1.orders.size ≤ k.orders.size := by
  simp only [cancelOrder, deductOn]
  split_ifs
  · cases hm : k.orders[e.orderId]? with
    | none => exact Nat.le_refl _
    | some m =>
      dsimp only
      split_ifs
      · rw [alterSide_orders]
        exact ExtTreeMap.size_erase_le
      · rw [alterSide_orders]
        exact Nat.le_of_eq (FiniteMap.size_insert_bound k.orders e.orderId _ hm)
  · rw [alterSide_orders]

theorem size_trade (k : Book) (e : Event) : (k.trade e).1.orders.size ≤ k.orders.size := by
  simp only [trade, deductOn]
  split_ifs
  · rw [alterSide_orders]
  · cases hm : k.orders[e.orderId]? with
    | none => exact Nat.le_refl _
    | some m =>
      dsimp only
      split_ifs
      · rw [alterSide_orders]
        exact Nat.le_of_eq (FiniteMap.size_insert_bound k.orders e.orderId _ hm)
      · rw [alterSide_orders]
        exact ExtTreeMap.size_erase_le

theorem size_apply (M : Nat) (k : Book) (e : Event) :
    (k.apply M e).1.orders.size ≤ k.orders.size + 1 := by
  simp only [apply]
  cases EventType.fromU8 e.eventType with
  | none => exact Nat.le_succ _
  | some t =>
    cases t with
    | orderAdd => exact size_addOrder M k e
    | orderCancel => exact (size_cancelOrder k e).trans (Nat.le_succ _)
    | orderModify =>
      exact (size_addOrder M _ e).trans (Nat.succ_le_succ (size_cancelOrder k e))
    | trade => exact (size_trade k e).trans (Nat.le_succ _)
    | bookSnapshot => exact Nat.le_succ _

theorem size_run (M : Nat) (k : Book) (es : List Event) :
    (k.run M es).orders.size ≤ k.orders.size + es.length := by
  induction es generalizing k with
  | nil => exact Nat.le_refl _
  | cons e es ih =>
    have h := (ih (k.apply M e).1).trans (Nat.add_le_add_right (size_apply M k e) es.length)
    rw [List.length_cons]
    exact h.trans (by omega)

theorem size_empty_run (M : Nat) (es : List Event) :
    (Book.empty.run M es).orders.size ≤ es.length := by
  have h := size_run M Book.empty es
  rwa [show Book.empty.orders.size = 0 from ExtTreeMap.size_empty, Nat.zero_add] at h

end Book

end Flowlab.Core
