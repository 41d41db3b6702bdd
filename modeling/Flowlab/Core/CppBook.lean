import Flowlab.Core.HotRefine
import Flowlab.Framework.Bisection

namespace Flowlab.Core

open Std Framework

/-- One side of the C++ grid: `bids_` with `bid_count_`, `asks_` with `ask_count_`. -/
@[ext] structure CppHalf (M : Nat) where
  levels : Vector Level M
  count : Nat

/-- `(cur > d) ? (cur - d) : 0`. -/
def clampSub (cur d : UInt64) : UInt64 := if cur > d then cur - d else 0

/-- `if (count > 0) count--`. -/
def decCount (c : UInt32) : UInt32 := if c > 0 then c - 1 else c

namespace CppHalf

def cell {M : Nat} (h : CppHalf M) (i : Nat) : Level := h.levels.toList.getD i default

def setCell {M : Nat} (h : CppHalf M) (i : Nat) (l : Level) : CppHalf M :=
  { h with levels := h.levels.setIfInBounds i l }

/-- The cells a reader of `bids()` and `bid_levels()` sees. -/
def ladder {M : Nat} (h : CppHalf M) : List Level := h.levels.toList.take h.count

/-- The hand-written binary search of `orderbook.cpp`, instantiated for one side. -/
def partitionPoint {M : Nat} (h : CppHalf M) (isBid : Bool) (price : UInt64) : Nat :=
  Bisection.bisect
    (fun mid => if isBid then decide ((h.cell mid).price > price)
      else decide ((h.cell mid).price < price))
    h.count 0 h.count

/-- `none` stands for the `SIZE_MAX` that `find_level` returns on a miss. -/
def findLevel {M : Nat} (h : CppHalf M) (isBid : Bool) (price : UInt64) : Option Nat :=
  let pos := h.partitionPoint isBid price
  if pos < h.count ∧ (h.cell pos).price = price then some pos else none

def removeLevel {M : Nat} (h : CppHalf M) (i : Nat) : CppHalf M :=
  let cnt := h.count
  let levels :=
    if i + 1 < cnt then FixedArray.memmove h.levels i (i + 1) (cnt - i - 1) else h.levels
  { levels := levels.setIfInBounds (cnt - 1) ⟨0, 0, 0⟩, count := cnt - 1 }

/-- The ladder part of `add_order`; `none` is an order that was not placed. -/
def addLevel {M : Nat} (h : CppHalf M) (isBid : Bool) (price qty : UInt64) : Option (CppHalf M) :=
  let cnt := h.count
  let pos := h.partitionPoint isBid price
  if pos < cnt ∧ (h.cell pos).price = price then
    let l := h.cell pos
    some (h.setCell pos { l with totalQty := l.totalQty + qty, orderCount := l.orderCount + 1 })
  else if cnt < M then
    let levels :=
      if pos < cnt then FixedArray.memmove h.levels (pos + 1) pos (cnt - pos) else h.levels
    some { levels := levels.setIfInBounds pos ⟨price, qty, 1⟩, count := cnt + 1 }
  else none

/-- The common tail of `cancel_order` and of `trade` for a known order. -/
def deduct {M : Nat} (h : CppHalf M) (isBid : Bool) (price qty : UInt64) (release : Bool) :
    CppHalf M :=
  match h.findLevel isBid price with
  | none => h
  | some i =>
    let l := { h.cell i with totalQty := clampSub (h.cell i).totalQty qty }
    if release then
      let l := { l with orderCount := decCount l.orderCount }
      let h := h.setCell i l
      if l.orderCount = 0 then h.removeLevel i else h
    else h.setCell i l

/-- The anonymous branch of `trade`. -/
def deductAnon {M : Nat} (h : CppHalf M) (isBid : Bool) (price qty : UInt64) : CppHalf M :=
  match h.findLevel isBid price with
  | none => h
  | some i =>
    let l := { h.cell i with totalQty := clampSub (h.cell i).totalQty qty }
    if l.totalQty = 0 then
      let l := { l with orderCount := decCount l.orderCount }
      let h := h.setCell i l
      if l.orderCount = 0 then h.removeLevel i else h
    else h.setCell i l

end CppHalf

/-- `OrderBook<MaxLevels>` of `hotpath`; `orders` is its `unordered_map`. -/
@[ext] structure CppOrderBook (M : Nat) where
  bids : CppHalf M
  asks : CppHalf M
  orders : ExtTreeMap UInt64 OrderMeta

namespace CppOrderBook

/-- The constructor sets the two counts only: the arrays start with whatever memory held. -/
def new {M : Nat} (bids asks : Vector Level M) : CppOrderBook M := ⟨⟨bids, 0⟩, ⟨asks, 0⟩, ∅⟩

def half {M : Nat} (b : CppOrderBook M) (isBid : Bool) : CppHalf M :=
  if isBid then b.bids else b.asks

def setHalf {M : Nat} (b : CppOrderBook M) (isBid : Bool) (h : CppHalf M) : CppOrderBook M :=
  if isBid then { b with bids := h } else { b with asks := h }

def addOrder {M : Nat} (b : CppOrderBook M) (e : Event) : CppOrderBook M :=
  let isBid := decide (e.side = 0)
  match (b.half isBid).addLevel isBid e.price e.qty with
  | none => b
  | some h =>
    let b := b.setHalf isBid h
    if e.orderId ≠ 0 then
      { b with orders := b.orders.insert e.orderId ⟨e.price, e.qty, e.side⟩ }
    else b

def deductOn {M : Nat} (b : CppOrderBook M) (isBid : Bool) (price qty : UInt64) (release : Bool) :
    CppOrderBook M :=
  b.setHalf isBid ((b.half isBid).deduct isBid price qty release)

def cancelOrder {M : Nat} (b : CppOrderBook M) (e : Event) : CppOrderBook M :=
  if e.orderId ≠ 0 then
    match b.orders[e.orderId]? with
    | none => b
    | some m =>
      if e.qty = 0 ∨ m.qty ≤ e.qty then
        { b with orders := b.orders.erase e.orderId }.deductOn
          (decide (m.side = 0)) m.price m.qty true
      else
        { b with orders := b.orders.insert e.orderId { m with qty := m.qty - e.qty } }.deductOn
          (decide (m.side = 0)) m.price e.qty false
  else b.deductOn (decide (e.side = 0)) e.price e.qty true

def trade {M : Nat} (b : CppOrderBook M) (e : Event) : CppOrderBook M :=
  if e.orderId = 0 then
    let isBid := decide (e.side = 0)
    b.setHalf isBid ((b.half isBid).deductAnon isBid e.price e.qty)
  else
    match b.orders[e.orderId]? with
    | none => b
    | some m =>
      let fillQty := if m.qty ≤ e.qty then m.qty else e.qty
      let fullFill := decide (fillQty = m.qty)
      let orders :=
        if fullFill then b.orders.erase e.orderId
        else b.orders.insert e.orderId { m with qty := m.qty - fillQty }
      { b with orders := orders }.deductOn (decide (m.side = 0)) m.price fillQty fullFill

def apply {M : Nat} (b : CppOrderBook M) (e : Event) : CppOrderBook M :=
  match e.eventType with
  | 0x01 => b.addOrder e
  | 0x02 => b.cancelOrder e
  | 0x03 => (b.cancelOrder e).addOrder e
  | 0x04 => b.trade e
  | _ => b

def run {M : Nat} (b : CppOrderBook M) (es : List Event) : CppOrderBook M := es.foldl apply b

end CppOrderBook

theorem clampSub_eq (cur d : UInt64) : clampSub cur d = satSub64 cur d := by
  apply UInt64.toNat_inj.mp
  rw [satSub64_toNat]
  simp only [clampSub]
  split_ifs with h
  · exact UInt64.toNat_sub_of_le cur d (UInt64.le_of_lt h)
  · have hle : cur.toNat ≤ d.toNat := UInt64.le_iff_toNat_le.mp (UInt64.not_lt.mp h)
    have hz : (0 : UInt64).toNat = 0 := rfl
    omega

theorem decCount_eq (c : UInt32) : decCount c = satSub32 c 1 := by
  apply UInt32.toNat_inj.mp
  have h1 : (1 : UInt32).toNat = 1 := rfl
  rw [satSub32_toNat, h1]
  simp only [decCount]
  split_ifs with h
  · have hp := UInt32.lt_iff_toNat_lt.mp h
    rw [UInt32.toNat_sub_of_le c 1 (UInt32.le_iff_toNat_le.mpr hp), h1]
  · have hle : c.toNat ≤ 0 := UInt32.le_iff_toNat_le.mp (UInt32.not_lt.mp h)
    omega

namespace CppHalf

/-- The Rust side with the same cells: only the width of the counter differs. -/
def toHalf {M : Nat} (h : CppHalf M) : HalfBook M := ⟨h.levels, UInt32.ofNat h.count⟩

structure Inv {M : Nat} (isBid : Bool) (h : CppHalf M) : Prop where
  count_le : h.count ≤ M
  half : h.toHalf.Inv isBid

theorem toHalf_count {M : Nat} {isBid : Bool} {h : CppHalf M} (hi : h.Inv isBid) :
    h.toHalf.count.toNat = h.count :=
  UInt32.toNat_ofNat_of_lt' (show h.count < 2 ^ 32 from hi.count_le.trans_lt hi.half.depth)

/-- The C++ search and `slice::partition_point` stop at the same place on an ordered side. -/
theorem partitionPoint_eq {M : Nat} {isBid : Bool} {h : CppHalf M} (hi : h.Inv isBid)
    (price : UInt64) : h.partitionPoint isBid price = h.toHalf.insertionPoint isBid price := by
  have hlen := HalfBook.ladder_length hi.half.count_le
  rw [toHalf_count hi] at hlen
  rw [HalfBook.insertionPoint_eq]
  refine Bisection.bisect_eq _ _ _ _ _ (Nat.zero_le _) ?_ ?_ (by omega)
  · rw [← hlen]
    exact KeyedList.rank_le price h.toHalf.ladder
  · intro i hlt
    have hil : i < h.toHalf.ladder.length := by omega
    have hcell := HalfBook.ladder_cell hi.half.count_le (i := i) (by rw [toHalf_count hi]; exact hlt)
    rw [List.getElem?_eq_getElem hil] at hcell
    have he : h.cell i = h.toHalf.ladder[i] := (Option.some.inj hcell).symm
    rw [← KeyedList.before_iff_lt_rank price h.toHalf.ladder hi.half.sorted i hil, ← he]
    rfl

theorem findLevel_eq {M : Nat} {isBid : Bool} {h : CppHalf M} (hi : h.Inv isBid)
    (price : UInt64) : h.findLevel isBid price = h.toHalf.findLevel isBid price := by
  simp only [findLevel, HalfBook.findLevel, partitionPoint_eq hi, toHalf_count hi]
  rfl

theorem removeLevel_eq {M : Nat} {h : CppHalf M} (hc : h.count < 2 ^ 32) (i : Nat) :
    (h.removeLevel i).toHalf = h.toHalf.removeLevel i := by
  have hiff : i + 1 < h.count ↔ i < h.count - 1 := by omega
  have hn : h.toHalf.count.toNat = h.count := UInt32.toNat_ofNat_of_lt' hc
  simp only [removeLevel, HalfBook.removeLevel, hn, hiff]
  rfl

theorem cell_eq {M : Nat} (h : CppHalf M) (i : Nat) : h.cell i = h.toHalf.cell i := rfl

theorem removeLevel_count_le {M : Nat} {h : CppHalf M} (hc : h.count ≤ M) (i : Nat) :
    (h.removeLevel i).count ≤ M := (Nat.sub_le _ _).trans hc

/-- The C++ deduction is the Rust one, cell for cell. -/
theorem deduct_eq {M : Nat} {isBid : Bool} {h : CppHalf M} (hi : h.Inv isBid)
    (price qty : UInt64) (release : Bool) :
    (h.deduct isBid price qty release).count ≤ M ∧
    (h.deduct isBid price qty release).toHalf = (h.toHalf.deduct isBid price qty release).1 := by
  have hc := hi.count_le.trans_lt hi.half.depth
  have hrem (i : Nat) (l : Level) :
      ((h.setCell i l).removeLevel i).toHalf = (h.toHalf.setCell i l).removeLevel i :=
    removeLevel_eq (h := h.setCell i l) hc i
  simp only [deduct, HalfBook.deduct, findLevel_eq hi, clampSub_eq, decCount_eq, cell_eq]
  cases h.toHalf.findLevel isBid price with
  | none => exact ⟨hi.count_le, rfl⟩
  | some i =>
    dsimp only
    split_ifs
    · exact ⟨removeLevel_count_le hi.count_le i, hrem i _⟩
    · exact ⟨hi.count_le, rfl⟩
    · exact ⟨hi.count_le, rfl⟩

theorem deductAnon_eq {M : Nat} {isBid : Bool} {h : CppHalf M} (hi : h.Inv isBid)
    (price qty : UInt64) :
    (h.deductAnon isBid price qty).count ≤ M ∧
    (h.deductAnon isBid price qty).toHalf = (h.toHalf.deductAnon isBid price qty).1 := by
  have hc := hi.count_le.trans_lt hi.half.depth
  have hrem (i : Nat) (l : Level) :
      ((h.setCell i l).removeLevel i).toHalf = (h.toHalf.setCell i l).removeLevel i :=
    removeLevel_eq (h := h.setCell i l) hc i
  simp only [deductAnon, HalfBook.deductAnon, findLevel_eq hi, clampSub_eq, decCount_eq, cell_eq]
  cases h.toHalf.findLevel isBid price with
  | none => exact ⟨hi.count_le, rfl⟩
  | some i =>
    dsimp only
    split_ifs
    · exact ⟨removeLevel_count_le hi.count_le i, hrem i _⟩
    · exact ⟨hi.count_le, rfl⟩
    · exact ⟨hi.count_le, rfl⟩

/-- So is the C++ insertion; both refuse the same orders. -/
theorem addLevel_eq {M : Nat} {isBid : Bool} {h : CppHalf M} (hi : h.Inv isBid)
    (price qty : UInt64) :
    (∀ h', h.addLevel isBid price qty = some h' → h'.count ≤ M) ∧
    (h.addLevel isBid price qty).map toHalf = h.toHalf.addLevel isBid price qty := by
  simp only [addLevel, HalfBook.addLevel, partitionPoint_eq hi, toHalf_count hi, cell_eq]
  by_cases hhit : h.toHalf.insertionPoint isBid price < h.count ∧
      (h.toHalf.cell (h.toHalf.insertionPoint isBid price)).price = price
  · rw [if_pos hhit, if_pos hhit]
    exact ⟨fun h' he => by rw [← Option.some.inj he]; exact hi.count_le, rfl⟩
  · rw [if_neg hhit, if_neg hhit]
    by_cases hroom : h.count < M
    · rw [if_pos hroom, if_neg (Nat.not_le.mpr hroom)]
      exact ⟨fun h' he => by rw [← Option.some.inj he]; exact hroom, rfl⟩
    · rw [if_neg hroom, if_pos (Nat.not_lt.mp hroom)]
      exact ⟨fun h' he => absurd he (by simp), rfl⟩

end CppHalf

namespace CppOrderBook

/-- What the C++ book shows. -/
def view {M : Nat} (b : CppOrderBook M) : Book := ⟨b.bids.ladder, b.asks.ladder, b.orders⟩

structure Inv {M : Nat} (b : CppOrderBook M) : Prop where
  bids : b.bids.Inv true
  asks : b.asks.Inv false

theorem half_inv {M : Nat} {b : CppOrderBook M} (hi : b.Inv) (isBid : Bool) :
    (b.half isBid).Inv isBid := by
  cases isBid
  · exact hi.asks
  · exact hi.bids

theorem inv_setHalf {M : Nat} {b : CppOrderBook M} (hi : b.Inv) {isBid : Bool} {h : CppHalf M}
    (hh : h.Inv isBid) : (b.setHalf isBid h).Inv := by
  cases isBid
  · exact ⟨hi.bids, hh⟩
  · exact ⟨hh, hi.asks⟩

theorem view_side {M : Nat} {b : CppOrderBook M} (hi : b.Inv) (isBid : Bool) :
    b.view.side isBid = (b.half isBid).toHalf.ladder := by
  have hc := CppHalf.toHalf_count (half_inv hi isBid)
  rw [HalfBook.ladder, hc]
  cases isBid <;> rfl

theorem view_setHalf {M : Nat} {b : CppOrderBook M} (hi : b.Inv) (isBid : Bool) (price : UInt64)
    (f : Option Level → Option Level) {h : CppHalf M} (hh : h.Inv isBid)
    (hl : h.toHalf.ladder = KeyedList.alter Level.price (ahead isBid) price f
      (b.half isBid).toHalf.ladder) :
    (b.setHalf isBid h).view = b.view.alterSide isBid price f := by
  have hlad : h.ladder = h.toHalf.ladder := by
    rw [HalfBook.ladder, CppHalf.toHalf_count hh]
    rfl
  rw [← view_side hi] at hl
  cases isBid
  · simp only [setHalf, view, Book.alterSide, Bool.false_eq_true, if_false, hlad, hl]
  · simp only [setHalf, view, Book.alterSide, if_true, hlad, hl]

theorem deductOn_refines {M : Nat} {b : CppOrderBook M} (hi : b.Inv) (isBid : Bool)
    (price qty : UInt64) (release : Bool) :
    (b.deductOn isBid price qty release).Inv ∧
    (b.deductOn isBid price qty release).view = (b.view.deductOn isBid price qty release).1 := by
  have hh := half_inv hi isBid
  obtain ⟨hc, he⟩ := CppHalf.deduct_eq hh price qty release
  obtain ⟨hinv, hlad, _⟩ := HalfBook.deduct_spec hh.half price qty release
  rw [← he] at hinv hlad
  exact ⟨inv_setHalf hi ⟨hc, hinv⟩, view_setHalf hi isBid price _ ⟨hc, hinv⟩ hlad⟩

theorem inv_orders {M : Nat} {b : CppOrderBook M} (hi : b.Inv) (m : ExtTreeMap UInt64 OrderMeta) :
    ({ b with orders := m } : CppOrderBook M).Inv := ⟨hi.bids, hi.asks⟩

theorem addOrder_refines {M : Nat} {b : CppOrderBook M} (hi : b.Inv) (e : Event) :
    (b.addOrder e).Inv ∧ (b.addOrder e).view = (b.view.addOrder M e).1 := by
  have hh := half_inv hi (decide (e.side = 0))
  obtain ⟨hc, he⟩ := CppHalf.addLevel_eq hh e.price e.qty
  have hspec := HalfBook.addLevel_spec hh.half e.price e.qty
  simp only [addOrder, Book.addOrder, view_side hi]
  cases ha : (b.half (decide (e.side = 0))).addLevel (decide (e.side = 0)) e.price e.qty with
  | none =>
    rw [ha] at he
    rw [if_pos (hspec.1 he.symm)]
    exact ⟨hi, rfl⟩
  | some h =>
    rw [ha] at he
    obtain ⟨hinv, hlad, hroom, _⟩ := hspec.2 h.toHalf he.symm
    have hg := inv_setHalf hi ⟨hc h ha, hinv⟩
    have hv := view_setHalf hi _ e.price _ ⟨hc h ha, hinv⟩ hlad
    rw [if_neg hroom, ← hv]
    dsimp only
    split_ifs
    · exact ⟨inv_orders hg _, rfl⟩
    · exact ⟨hg, rfl⟩

theorem cancelOrder_refines {M : Nat} {b : CppOrderBook M} (hi : b.Inv) (e : Event) :
    (b.cancelOrder e).Inv ∧ (b.cancelOrder e).view = (b.view.cancelOrder e).1 := by
  have hget : b.view.orders[e.orderId]? = b.orders[e.orderId]? := rfl
  simp only [cancelOrder, Book.cancelOrder]
  rw [hget]
  split_ifs
  · cases b.orders[e.orderId]? with
    | none => exact ⟨hi, rfl⟩
    | some m =>
      dsimp only
      split_ifs
      · exact deductOn_refines (inv_orders hi _) _ _ _ _
      · exact deductOn_refines (inv_orders hi _) _ _ _ _
  · exact deductOn_refines hi _ _ _ _

theorem fillQty_eq (q m : UInt64) : (if m ≤ q then m else q) = min q m := by
  show _ = if q ≤ m then q else m
  split_ifs with h1 h2 h2
  · exact UInt64.le_antisymm h1 h2
  · rfl
  · rfl
  · exact absurd (UInt64.le_of_lt (UInt64.not_le.mp h1)) h2

theorem full_iff (q m : UInt64) : min q m = m ↔ m - min q m = 0 := by
  constructor
  · intro h
    rw [h, UInt64.sub_self]
  · intro h
    have := congrArg (· + min q m) h
    simpa using this.symm

theorem trade_refines {M : Nat} {b : CppOrderBook M} (hi : b.Inv) (e : Event) :
    (b.trade e).Inv ∧ (b.trade e).view = (b.view.trade e).1 := by
  have hget : b.view.orders[e.orderId]? = b.orders[e.orderId]? := rfl
  simp only [trade, Book.trade, hget, fillQty_eq]
  split_ifs with hid
  · have hh := half_inv hi (decide (e.side = 0))
    obtain ⟨hc, he⟩ := CppHalf.deductAnon_eq hh e.price e.qty
    obtain ⟨hinv, hlad, _⟩ := HalfBook.deductAnon_spec hh.half e.price e.qty
    rw [← he] at hinv hlad
    exact ⟨inv_setHalf hi ⟨hc, hinv⟩, view_setHalf hi _ e.price _ ⟨hc, hinv⟩ hlad⟩
  · cases b.orders[e.orderId]? with
    | none => exact ⟨hi, rfl⟩
    | some m =>
      dsimp only
      by_cases hfull : min e.qty m.qty = m.qty
      · have hz := (full_iff e.qty m.qty).mp hfull
        rw [if_neg (not_not.mpr hz)]
        simp only [hfull, decide_true, if_true]
        exact deductOn_refines (inv_orders hi _) _ _ _ _
      · have hz : m.qty - min e.qty m.qty ≠ 0 := fun h => hfull ((full_iff e.qty m.qty).mpr h)
        rw [if_pos hz]
        simp only [hfull, decide_false, Bool.false_eq_true, if_false]
        exact deductOn_refines (inv_orders hi _) _ _ _ _

/-- The C++ `switch` on the raw byte and the Rust match on the decoded type. -/
theorem apply_eq {M : Nat} (b : CppOrderBook M) (e : Event) :
    b.apply e = match EventType.fromU8 e.eventType with
      | some .orderAdd => b.addOrder e
      | some .orderCancel => b.cancelOrder e
      | some .orderModify => (b.cancelOrder e).addOrder e
      | some .trade => b.trade e
      | _ => b := by
  simp only [apply]
  generalize e.eventType = t
  split <;> try rfl
  rename_i h₁ h₂ h₃ h₄
  have hother : EventType.fromU8 t = none ∨ EventType.fromU8 t = some .bookSnapshot := by
    simp only [EventType.fromU8]
    split <;> first | contradiction | exact .inl rfl | exact .inr rfl
  rcases hother with hnone | hsnapshot
  · rw [hnone]
  · rw [hsnapshot]

theorem apply_refines {M : Nat} {b : CppOrderBook M} (hi : b.Inv) (e : Event) :
    (b.apply e).Inv ∧ (b.apply e).view = (b.view.apply M e).1 := by
  rw [apply_eq]
  simp only [Book.apply]
  cases EventType.fromU8 e.eventType with
  | none => exact ⟨hi, rfl⟩
  | some t =>
    cases t with
    | orderAdd => exact addOrder_refines hi e
    | orderCancel => exact cancelOrder_refines hi e
    | orderModify =>
      obtain ⟨hc, hv⟩ := cancelOrder_refines hi e
      dsimp only
      rw [← hv]
      exact addOrder_refines hc e
    | trade => exact trade_refines hi e
    | bookSnapshot => exact ⟨hi, rfl⟩

theorem inv_new {M : Nat} (hM : M < 2 ^ 32) (bids asks : Vector Level M) : (new bids asks).Inv := by
  constructor
  all_goals exact ⟨Nat.zero_le M, hM, Nat.zero_le M, by simp [new, CppHalf.toHalf, HalfBook.ladder,
    KeyedList.Sorted]⟩

theorem run_refines {M : Nat} (hM : M < 2 ^ 32) (bids asks : Vector Level M) (es : List Event) :
    ((new bids asks).run es).Inv ∧ ((new bids asks).run es).view = Book.empty.run M es := by
  induction es using List.reverseRecOn with
  | nil => exact ⟨inv_new hM bids asks, rfl⟩
  | append_singleton es e ih =>
    obtain ⟨hi, hv⟩ := ih
    simp only [run, Book.run, List.foldl_append, List.foldl_cons, List.foldl_nil] at hi hv ⊢
    rw [← hv]
    exact apply_refines hi e

end CppOrderBook

end Flowlab.Core
