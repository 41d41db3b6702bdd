import Mathlib.Data.List.MinMax
import Flowlab.Chaos.OrderTracker

namespace Flowlab.Chaos

open Std Framework
open Flowlab.Core (Event EventType SequencedEvent satSub64)

/-- A price level: side byte and price. -/
@[ext] structure LevelKey where
  side : UInt8
  price : UInt64
  deriving DecidableEq, Repr

namespace LevelKey

instance : Ord LevelKey := ⟨compareLex (compareOn side) (compareOn price)⟩

instance : TransOrd LevelKey :=
  inferInstanceAs (TransCmp (compareLex (compareOn side) (compareOn price)))

instance : LawfulEqOrd LevelKey where
  eq_of_compare {a b} h := by
    obtain ⟨hside, hprice⟩ := compareLex_eq_eq.mp h
    exact LevelKey.ext (compare_eq_iff_eq.mp hside) (compare_eq_iff_eq.mp hprice)

end LevelKey

/-- The level that an event names itself. -/
def levelOf (e : Event) : LevelKey := ⟨e.side, e.price⟩

/-- What is tracked of a level since its first add. -/
@[ext] structure LevelTracker where
  createdSeq : UInt64
  createdTs : UInt64
  addedQty : UInt64
  cancelledQty : UInt64
  orderCount : UInt32
  cancelCount : UInt32
  deriving DecidableEq, Repr

namespace LevelTracker

def fullyCancelled (t : LevelTracker) : Bool :=
  decide (t.addedQty ≤ t.cancelledQty) && decide (t.orderCount ≤ t.cancelCount)

/-- The tracker that the first add at a level creates. -/
def opened (ev : SequencedEvent) : LevelTracker := ⟨ev.seq, ev.event.ts, ev.event.qty, 0, 1, 0⟩

/-- A further add. -/
def extended (t : LevelTracker) (qty : UInt64) : LevelTracker :=
  { t with addedQty := satAdd64 t.addedQty qty, orderCount := satAdd32 t.orderCount 1 }

/-- The entry of a level after an add. -/
def entered (o : Option LevelTracker) (ev : SequencedEvent) : LevelTracker :=
  match o with
  | some t => t.extended ev.event.qty
  | none => opened ev

/-- The quantity that a cancel removes; a full delete carries none and counts as a share of what is
left. -/
def removedQty (t : LevelTracker) (qty : UInt64) : UInt64 :=
  if qty = 0 then max (satSub64 t.addedQty t.cancelledQty) 1 / (max t.orderCount 1).toUInt64
  else qty

def charged (t : LevelTracker) (qty : UInt64) : LevelTracker :=
  { t with
    cancelledQty := satAdd64 t.cancelledQty (t.removedQty qty)
    cancelCount := satAdd32 t.cancelCount 1 }

/-- What a cancel leaves of a tracker. -/
def afterCancel (t : LevelTracker) (qty : UInt64) : Option LevelTracker :=
  if (t.charged qty).fullyCancelled then none else some (t.charged qty)

end LevelTracker

/-- The order in which a `HashMap` lists its entries: any, and another at every call. -/
structure HashOrder where
  iter : Nat → ExtTreeMap LevelKey LevelTracker → List (LevelKey × LevelTracker)
  perm : ∀ n t, (iter n t).Perm t.toList

/-- One such order: by level, every time. -/
def HashOrder.byLevel : HashOrder := ⟨fun _ t => t.toList, fun _ _ => .refl _⟩

/-- The detector of `phantom_liquidity.rs`. `evictions` counts the listings so far, so that
`hashOrder` may list in another order each time. -/
structure PhantomLiquidityDetector where
  levels : ExtTreeMap LevelKey LevelTracker
  orders : ExtTreeMap UInt64 LevelKey
  maxSeqGap : UInt64
  maxTimeGapNs : UInt64
  maxTracked : Nat
  minQty : UInt64
  hashOrder : HashOrder
  evictions : Nat

/-- `f64::max`: a number wins over a NaN. -/
def maxF64 (x y : Float) : Float :=
  if x.isNaN then y else if y.isNaN then x else if x < y then y else x

namespace PhantomLiquidityDetector

def new (maxSeqGap maxTimeGapNs : UInt64) (maxTracked : Nat) (minQty : UInt64)
    (hashOrder : HashOrder) : PhantomLiquidityDetector where
  levels := ∅
  orders := ∅
  maxSeqGap := maxSeqGap
  maxTimeGapNs := maxTimeGapNs
  maxTracked := maxTracked
  minQty := minQty
  hashOrder := hashOrder
  evictions := 0

/-- Drop the first entry of the listing with the smallest `createdSeq`. -/
def evictOldest (d : PhantomLiquidityDetector) : PhantomLiquidityDetector :=
  match (d.hashOrder.iter d.evictions d.levels).argmin (fun r => r.2.createdSeq.toNat) with
  | none => d
  | some r => { d with levels := d.levels.erase r.1, evictions := d.evictions + 1 }

/-- The check of the tracker size, which comes before the insertion. -/
def makeRoom (d : PhantomLiquidityDetector) : PhantomLiquidityDetector :=
  if d.maxTracked ≤ d.levels.size then d.evictOldest else d

def onAdd (d : PhantomLiquidityDetector) (ev : SequencedEvent) : PhantomLiquidityDetector :=
  let d := d.makeRoom
  let key := levelOf ev.event
  { d with
    levels := d.levels.insert key (.entered d.levels[key]? ev)
    orders :=
      if ev.event.orderId ≠ 0 then d.orders.insert ev.event.orderId key else d.orders }

/-- The level that a cancel is charged to: that of its order when it names one. -/
def target (d : PhantomLiquidityDetector) (e : Event) : Option LevelKey :=
  if e.orderId ≠ 0 then d.orders[e.orderId]? else some (levelOf e)

/-- The mapping of an order is one-shot. -/
def release (d : PhantomLiquidityDetector) (e : Event) : PhantomLiquidityDetector :=
  if e.orderId ≠ 0 then { d with orders := d.orders.erase e.orderId } else d

def insideWindow (d : PhantomLiquidityDetector) (seqGap timeGap : UInt64) : Bool :=
  (decide (0 < d.maxSeqGap) && decide (seqGap ≤ d.maxSeqGap)) ||
    (decide (0 < d.maxTimeGapNs) && decide (timeGap ≤ d.maxTimeGapNs))

/-- How close a gap comes to its cap; an absent window scores nothing. -/
def gapScore (gap cap : UInt64) : Float :=
  if 0 < cap then 1.0 - gap.toFloat / cap.toFloat else 0.0

def buildFlag (d : PhantomLiquidityDetector) (t : LevelTracker) (ev : SequencedEvent) : ChaosEvent :=
  let seqGap := satSub64 ev.seq t.createdSeq
  let timeGap := satSub64 ev.event.ts t.createdTs
  let seqScore := gapScore seqGap d.maxSeqGap
  let timeScore := gapScore timeGap d.maxTimeGapNs
  { kind := .phantomLiquidity
    startSeq := t.createdSeq
    endSeq := ev.seq
    startTsNs := t.createdTs
    endTsNs := ev.event.ts
    severity := clampF64 (maxF64 seqScore timeScore) 0.0 1.0
    initiator := none
    features :=
      { eventCount := (t.orderCount + t.cancelCount).toUInt64
        durationNs := timeGap
        cancelTradeRatio := 1.0 / 0.0
        priceDisplacement := 0
        depthRemoved := t.cancelledQty } }

/-- The quantity floor and the windows. -/
def Qualifies (d : PhantomLiquidityDetector) (t : LevelTracker) (ev : SequencedEvent) : Prop :=
  d.minQty ≤ t.addedQty ∧
    d.insideWindow (satSub64 ev.seq t.createdSeq) (satSub64 ev.event.ts t.createdTs) = true

instance (d : PhantomLiquidityDetector) (t : LevelTracker) (ev : SequencedEvent) :
    Decidable (d.Qualifies t ev) := inferInstanceAs (Decidable (_ ∧ _))

/-- The charge of a cancel to the tracker of its level. -/
def charge (d : PhantomLiquidityDetector) (key : LevelKey) (t : LevelTracker)
    (ev : SequencedEvent) : PhantomLiquidityDetector × Option ChaosEvent :=
  let t := t.charged ev.event.qty
  if t.fullyCancelled then
    ({ d with levels := d.levels.erase key },
      if d.Qualifies t ev then some (d.buildFlag t ev) else none)
  else ({ d with levels := d.levels.insert key t }, none)

def onCancel (d : PhantomLiquidityDetector) (ev : SequencedEvent) :
    PhantomLiquidityDetector × Option ChaosEvent :=
  match d.target ev.event with
  | none => (d, none)
  | some key =>
    let d := d.release ev.event
    match d.levels[key]? with
    | none => (d, none)
    | some t => d.charge key t ev

/-- A trade drops the candidate at the level that the event names. -/
def onTrade (d : PhantomLiquidityDetector) (e : Event) : PhantomLiquidityDetector :=
  { d with levels := d.levels.erase (levelOf e) }

def process (d : PhantomLiquidityDetector) (ev : SequencedEvent) :
    PhantomLiquidityDetector × Option ChaosEvent :=
  match EventType.fromU8 ev.event.eventType with
  | none => (d, none)
  | some .orderAdd => (d.onAdd ev, none)
  | some .orderCancel => d.onCancel ev
  | some .orderModify =>
    let r := d.onCancel ev
    (r.1.onAdd ev, r.2)
  | some .trade => (d.onTrade ev.event, none)
  | some .bookSnapshot => (d, none)

def run (d : PhantomLiquidityDetector) (evs : List SequencedEvent) : PhantomLiquidityDetector :=
  evs.foldl (fun d ev => (d.process ev).1) d

theorem run_concat (d : PhantomLiquidityDetector) (evs : List SequencedEvent) (ev : SequencedEvent) :
    d.run (evs ++ [ev]) = ((d.run evs).process ev).1 := List.foldl_append

/-- An eviction drops one tracked level, and happens unless there is none. -/
theorem evictOldest_spec (d : PhantomLiquidityDetector) :
    (d.levels.size = 0 ∧ d.evictOldest = d) ∨
      ∃ key t, d.levels[key]? = some t ∧
        d.evictOldest = { d with levels := d.levels.erase key, evictions := d.evictions + 1 } := by
  simp only [evictOldest]
  cases h : (d.hashOrder.iter d.evictions d.levels).argmin (fun r => r.2.createdSeq.toNat) with
  | none =>
    have hnil := (d.hashOrder.perm d.evictions d.levels).length_eq
    rw [List.argmin_eq_none.mp h, ExtTreeMap.length_toList] at hnil
    exact Or.inl ⟨hnil.symm, rfl⟩
  | some r =>
    have hmem := (d.hashOrder.perm d.evictions d.levels).mem_iff.mp (List.argmin_mem h)
    exact Or.inr ⟨r.1, r.2, ExtTreeMap.mem_toList_iff_getElem?_eq_some.mp hmem, rfl⟩

theorem makeRoom_spec (d : PhantomLiquidityDetector) :
    ((d.levels.size < d.maxTracked ∨ d.levels.size = 0) ∧ d.makeRoom = d) ∨
      ∃ key t, d.levels[key]? = some t ∧
        d.makeRoom = { d with levels := d.levels.erase key, evictions := d.evictions + 1 } := by
  simp only [makeRoom]
  split_ifs with hfull
  · rcases d.evictOldest_spec with ⟨hzero, he⟩ | hevict
    · exact Or.inl ⟨Or.inr hzero, he⟩
    · exact Or.inr hevict
  · exact Or.inl ⟨Or.inl (by omega), rfl⟩

theorem makeRoom_orders (d : PhantomLiquidityDetector) : d.makeRoom.orders = d.orders := by
  rcases d.makeRoom_spec with ⟨_, h⟩ | ⟨_, _, _, h⟩ <;> rw [h]

/-- What is tracked after making room was tracked before. -/
theorem makeRoom_tracked {d : PhantomLiquidityDetector} {key : LevelKey} {t : LevelTracker}
    (h : d.makeRoom.levels[key]? = some t) : d.levels[key]? = some t := by
  rcases d.makeRoom_spec with ⟨_, hroom⟩ | ⟨gone, _, _, hroom⟩
  · rwa [hroom] at h
  · rw [hroom] at h
    dsimp only at h
    rw [FiniteMap.get_erase] at h
    split_ifs at h
    exact h

theorem onAdd_level (d : PhantomLiquidityDetector) (ev : SequencedEvent) (key : LevelKey) :
    (d.onAdd ev).levels[key]? =
      if key = levelOf ev.event then
        some (LevelTracker.entered d.makeRoom.levels[levelOf ev.event]? ev)
      else d.makeRoom.levels[key]? := by
  rw [onAdd, FiniteMap.get_insert]

theorem onAdd_order (d : PhantomLiquidityDetector) (ev : SequencedEvent) (i : UInt64) :
    (d.onAdd ev).orders[i]? =
      if ev.event.orderId ≠ 0 ∧ i = ev.event.orderId then some (levelOf ev.event)
      else d.orders[i]? := by
  simp only [onAdd, makeRoom_orders]
  by_cases hid : ev.event.orderId = 0
  · simp [hid]
  · simp [hid, FiniteMap.get_insert]

theorem release_levels (d : PhantomLiquidityDetector) (e : Event) :
    (d.release e).levels = d.levels := by
  simp only [release]
  split_ifs <;> rfl

theorem release_order (d : PhantomLiquidityDetector) (e : Event) (i : UInt64) :
    (d.release e).orders[i]? = if e.orderId ≠ 0 ∧ i = e.orderId then none else d.orders[i]? := by
  simp only [release]
  by_cases hid : e.orderId = 0
  · simp [hid]
  · simp [hid, FiniteMap.get_erase]

theorem release_self (d : PhantomLiquidityDetector) {e : Event} (h : d.target e = none) :
    d.release e = d := by
  simp only [target] at h
  simp only [release]
  split_ifs with hid
  · rw [if_pos hid] at h
    have herase : d.orders.erase e.orderId = d.orders := by
      apply ExtTreeMap.ext_getElem?
      intro i
      rw [FiniteMap.get_erase]
      split_ifs with hi
      · rw [hi, h]
      · rfl
    rw [herase]
  · rfl

/-- A cancel releases its order, and is charged to the tracker of its level if there is one. -/
theorem onCancel_cases (d : PhantomLiquidityDetector) (ev : SequencedEvent) :
    ((∀ key, d.target ev.event = some key → d.levels[key]? = none) ∧
        d.onCancel ev = (d.release ev.event, none)) ∨
      ∃ key t, d.target ev.event = some key ∧ d.levels[key]? = some t ∧
        d.onCancel ev = (d.release ev.event).charge key t ev := by
  simp only [onCancel, release_levels]
  cases htarget : d.target ev.event with
  | none => exact Or.inl ⟨by simp, by rw [d.release_self htarget]⟩
  | some key =>
    dsimp only
    cases ht : d.levels[key]? with
    | none =>
      refine Or.inl ⟨?_, rfl⟩
      intro k hk
      rw [← Option.some.inj hk]
      exact ht
    | some t => exact Or.inr ⟨key, t, rfl, ht, rfl⟩

theorem charge_orders (d : PhantomLiquidityDetector) (key : LevelKey) (t : LevelTracker)
    (ev : SequencedEvent) : (d.charge key t ev).1.orders = d.orders := by
  simp only [charge]
  split_ifs <;> rfl

theorem charge_level (d : PhantomLiquidityDetector) (key : LevelKey) (t : LevelTracker)
    (ev : SequencedEvent) (k : LevelKey) :
    (d.charge key t ev).1.levels[k]? =
      if k = key then t.afterCancel ev.event.qty else d.levels[k]? := by
  by_cases hfull : (t.charged ev.event.qty).fullyCancelled = true
  · simp [charge, LevelTracker.afterCancel, hfull, FiniteMap.get_erase]
  · simp [charge, LevelTracker.afterCancel, hfull, FiniteMap.get_insert]

theorem charge_flag {d : PhantomLiquidityDetector} {key : LevelKey} {t : LevelTracker}
    {ev : SequencedEvent} {f : ChaosEvent} :
    (d.charge key t ev).2 = some f ↔ (t.charged ev.event.qty).fullyCancelled = true ∧
      d.Qualifies (t.charged ev.event.qty) ev ∧ d.buildFlag (t.charged ev.event.qty) ev = f := by
  by_cases hfull : (t.charged ev.event.qty).fullyCancelled = true
  · simp [charge, hfull]
  · simp [charge, hfull]

theorem onCancel_level (d : PhantomLiquidityDetector) (ev : SequencedEvent) (key : LevelKey) :
    (d.onCancel ev).1.levels[key]? =
      if d.target ev.event = some key then
        d.levels[key]?.bind fun t => t.afterCancel ev.event.qty
      else d.levels[key]? := by
  rcases d.onCancel_cases ev with ⟨hnone, h⟩ | ⟨k, t, htarget, ht, h⟩
  · rw [h, release_levels]
    split_ifs with hkey
    · rw [hnone key hkey]
      rfl
    · rfl
  · rw [h, charge_level, release_levels, htarget]
    simp only [Option.some.injEq]
    by_cases hk : k = key
    · rw [if_pos hk.symm, if_pos hk, ← hk, ht]
      rfl
    · rw [if_neg (Ne.symm hk), if_neg hk]

/-- A cancel ends the mapping of the order that it names. -/
theorem onCancel_order (d : PhantomLiquidityDetector) (ev : SequencedEvent) (i : UInt64) :
    (d.onCancel ev).1.orders[i]? =
      if ev.event.orderId ≠ 0 ∧ i = ev.event.orderId then none else d.orders[i]? := by
  rcases d.onCancel_cases ev with ⟨_, h⟩ | ⟨k, t, _, _, h⟩
  · rw [h, release_order]
  · rw [h, charge_orders, release_order]

theorem onTrade_level (d : PhantomLiquidityDetector) (e : Event) (key : LevelKey) :
    (d.onTrade e).levels[key]? = if key = levelOf e then none else d.levels[key]? := by
  rw [onTrade, FiniteMap.get_erase]

/-- A tracker after an add was there before, or the add is at its level and opens or extends it. -/
theorem onAdd_tracked {d : PhantomLiquidityDetector} {ev : SequencedEvent} {key : LevelKey}
    {t : LevelTracker} (h : (d.onAdd ev).levels[key]? = some t) :
    (levelOf ev.event ≠ key ∧ d.levels[key]? = some t) ∨
      (levelOf ev.event = key ∧ (t = .opened ev ∨
        ∃ s, d.levels[key]? = some s ∧ t = s.extended ev.event.qty)) := by
  rw [onAdd_level] at h
  split_ifs at h with hkey
  · rw [← hkey] at h
    rw [← Option.some.inj h]
    cases hold : d.makeRoom.levels[key]? with
    | none => exact Or.inr ⟨hkey.symm, Or.inl rfl⟩
    | some s => exact Or.inr ⟨hkey.symm, Or.inr ⟨s, makeRoom_tracked hold, rfl⟩⟩
  · exact Or.inl ⟨Ne.symm hkey, makeRoom_tracked h⟩

/-- A tracker after a cancel was there before, or has been charged with it. -/
theorem onCancel_tracked {d : PhantomLiquidityDetector} {ev : SequencedEvent} {key : LevelKey}
    {t : LevelTracker} (h : (d.onCancel ev).1.levels[key]? = some t) :
    (d.target ev.event ≠ some key ∧ d.levels[key]? = some t) ∨
      (d.target ev.event = some key ∧
        ∃ s, d.levels[key]? = some s ∧ t = s.charged ev.event.qty) := by
  rw [onCancel_level] at h
  split_ifs at h with hkey
  · obtain ⟨s, hs, hafter⟩ := Option.bind_eq_some_iff.mp h
    rw [LevelTracker.afterCancel] at hafter
    split_ifs at hafter
    exact Or.inr ⟨hkey, s, hs, (Option.some.inj hafter).symm⟩
  · exact Or.inl ⟨hkey, h⟩

/-- What an event makes of the mapping of the order that it names. -/
def remapped (e : Event) (o : Option LevelKey) : Option LevelKey :=
  match EventType.fromU8 e.eventType with
  | some .orderAdd => some (levelOf e)
  | some .orderModify => some (levelOf e)
  | some .orderCancel => none
  | _ => o

/-- Orders are mapped by the events that name them, one order an event. -/
theorem process_order (d : PhantomLiquidityDetector) (ev : SequencedEvent) (i : UInt64) :
    (d.process ev).1.orders[i]? =
      if ev.event.orderId ≠ 0 ∧ i = ev.event.orderId then remapped ev.event d.orders[i]?
      else d.orders[i]? := by
  simp only [process, remapped]
  cases EventType.fromU8 ev.event.eventType with
  | none => simp
  | some etype =>
    cases etype with
    | orderAdd => simp only [onAdd_order]
    | orderCancel => simp only [onCancel_order]
    | orderModify =>
      simp only [onAdd_order, onCancel_order]
      split_ifs <;> rfl
    | trade => simp [onTrade]
    | bookSnapshot => simp

/-- The settings are the same. -/
structure SameSettings (d d' : PhantomLiquidityDetector) : Prop where
  maxSeqGap : d'.maxSeqGap = d.maxSeqGap
  maxTimeGapNs : d'.maxTimeGapNs = d.maxTimeGapNs
  maxTracked : d'.maxTracked = d.maxTracked
  minQty : d'.minQty = d.minQty

theorem SameSettings.trans {d d' d'' : PhantomLiquidityDetector} (h : d.SameSettings d')
    (h' : d'.SameSettings d'') : d.SameSettings d'' where
  maxSeqGap := h'.maxSeqGap.trans h.maxSeqGap
  maxTimeGapNs := h'.maxTimeGapNs.trans h.maxTimeGapNs
  maxTracked := h'.maxTracked.trans h.maxTracked
  minQty := h'.minQty.trans h.minQty

theorem sameSettings_makeRoom (d : PhantomLiquidityDetector) : d.SameSettings d.makeRoom := by
  rcases d.makeRoom_spec with ⟨_, h⟩ | ⟨_, _, _, h⟩ <;> rw [h] <;> exact ⟨rfl, rfl, rfl, rfl⟩

theorem sameSettings_onAdd (d : PhantomLiquidityDetector) (ev : SequencedEvent) :
    d.SameSettings (d.onAdd ev) := d.sameSettings_makeRoom.trans ⟨rfl, rfl, rfl, rfl⟩

theorem sameSettings_release (d : PhantomLiquidityDetector) (e : Event) :
    d.SameSettings (d.release e) := by
  simp only [release]
  split_ifs <;> exact ⟨rfl, rfl, rfl, rfl⟩

theorem sameSettings_onCancel (d : PhantomLiquidityDetector) (ev : SequencedEvent) :
    d.SameSettings (d.onCancel ev).1 := by
  have hrelease := d.sameSettings_release ev.event
  rcases d.onCancel_cases ev with ⟨_, h⟩ | ⟨key, t, _, _, h⟩
  · rw [h]
    exact hrelease
  · rw [h]
    refine hrelease.trans ?_
    simp only [charge]
    split_ifs <;> exact ⟨rfl, rfl, rfl, rfl⟩

theorem sameSettings_process (d : PhantomLiquidityDetector) (ev : SequencedEvent) :
    d.SameSettings (d.process ev).1 := by
  simp only [process]
  split
  · exact ⟨rfl, rfl, rfl, rfl⟩
  · exact d.sameSettings_onAdd ev
  · exact d.sameSettings_onCancel ev
  · exact (d.sameSettings_onCancel ev).trans (sameSettings_onAdd _ ev)
  · exact ⟨rfl, rfl, rfl, rfl⟩
  · exact ⟨rfl, rfl, rfl, rfl⟩

theorem sameSettings_run (d : PhantomLiquidityDetector) (evs : List SequencedEvent) :
    d.SameSettings (d.run evs) := by
  induction evs using List.reverseRecOn with
  | nil => exact ⟨rfl, rfl, rfl, rfl⟩
  | append_singleton evs ev ih =>
    rw [run_concat]
    exact ih.trans (sameSettings_process _ ev)

/-- A flag comes from the cancel, or the cancel half of a modify, that completes a tracked level. -/
theorem process_flag {d : PhantomLiquidityDetector} {ev : SequencedEvent} {f : ChaosEvent}
    (h : (d.process ev).2 = some f) :
    (EventType.fromU8 ev.event.eventType = some .orderCancel ∨
        EventType.fromU8 ev.event.eventType = some .orderModify) ∧
      ∃ key t, d.target ev.event = some key ∧ d.levels[key]? = some t ∧
        (t.charged ev.event.qty).fullyCancelled = true ∧
        f.startSeq = t.createdSeq ∧ f.endSeq = ev.seq := by
  have hcancel (h : (d.onCancel ev).2 = some f) :
      ∃ key t, d.target ev.event = some key ∧ d.levels[key]? = some t ∧
        (t.charged ev.event.qty).fullyCancelled = true ∧
        f.startSeq = t.createdSeq ∧ f.endSeq = ev.seq := by
    rcases d.onCancel_cases ev with ⟨_, hc⟩ | ⟨key, t, htarget, ht, hc⟩
    · rw [hc] at h
      exact absurd h (by simp)
    · rw [hc] at h
      obtain ⟨hfull, _, rfl⟩ := charge_flag.mp h
      exact ⟨key, t, htarget, ht, hfull, rfl, rfl⟩
  simp only [process] at h
  cases htype : EventType.fromU8 ev.event.eventType with
  | none => simp [htype] at h
  | some etype =>
    cases etype with
    | orderCancel => exact ⟨Or.inl rfl, hcancel (by simpa [htype] using h)⟩
    | orderModify => exact ⟨Or.inr rfl, hcancel (by simpa [htype] using h)⟩
    | orderAdd => simp [htype] at h
    | trade => simp [htype] at h
    | bookSnapshot => simp [htype] at h

end PhantomLiquidityDetector

end Flowlab.Chaos
