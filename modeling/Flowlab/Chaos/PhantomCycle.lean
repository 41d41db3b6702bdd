import Flowlab.Chaos.PhantomCancels

namespace Flowlab.Chaos

open Std Framework Framework.Machine
open Flowlab.Core (Event EventType SequencedEvent satSub64 satSub64_toNat)

namespace LevelTracker

/-- A full delete counts as what is left, shared among all orders ever added. -/
theorem removedQty_zero (t : LevelTracker) :
    (t.removedQty 0).toNat =
      max (t.addedQty.toNat - t.cancelledQty.toNat) 1 / max t.orderCount.toNat 1 := by
  rw [removedQty, if_pos rfl, UInt64.toNat_div, toNat_max64, satSub64_toNat,
    UInt32.toNat_toUInt64, toNat_max32]
  rfl

/-- Two orders or more at the level, and quantity left. -/
structure Unfinished (t : LevelTracker) : Prop where
  left : t.cancelledQty.toNat < t.addedQty.toNat
  orders : 2 ≤ t.orderCount.toNat

theorem Unfinished.not_fullyCancelled {t : LevelTracker} (h : t.Unfinished) :
    t.fullyCancelled = false := by
  have hleft : ¬ t.addedQty ≤ t.cancelledQty := by
    rw [UInt64.le_iff_toNat_le]
    have := h.left
    omega
  simp [fullyCancelled, hleft]

/-- Among two orders or more, a full delete never counts as all that is left. -/
theorem Unfinished.charged {t : LevelTracker} (h : t.Unfinished) : (t.charged 0).Unfinished where
  left := by
    have hleft := h.left
    have hadded := t.addedQty.toNat_lt
    have hshare : max (t.addedQty.toNat - t.cancelledQty.toNat) 1 / max t.orderCount.toNat 1 <
        t.addedQty.toNat - t.cancelledQty.toNat := by
      rw [max_eq_left (by omega), max_eq_left (by have := h.orders; omega)]
      exact Nat.div_lt_self (by omega) h.orders
    simp only [LevelTracker.charged, satAdd64_toNat, removedQty_zero]
    omega
  orders := h.orders

theorem Unfinished.extended {t : LevelTracker} (h : t.Unfinished) (qty : UInt64) :
    (t.extended qty).Unfinished where
  left := by
    have hleft := h.left
    have hadded := t.addedQty.toNat_lt
    simp only [LevelTracker.extended, satAdd64_toNat]
    omega
  orders := by
    have horders := h.orders
    have hcount := t.orderCount.toNat_lt
    simp only [LevelTracker.extended, satAdd32_toNat]
    omega

/-- The second add at a level. -/
theorem unfinished_second {ev : SequencedEvent} (h : 1 ≤ ev.event.qty) (qty : UInt64) :
    ((opened ev).extended qty).Unfinished where
  left := by
    have hqty : 1 ≤ ev.event.qty.toNat := UInt64.le_iff_toNat_le.mp h
    have hlt := ev.event.qty.toNat_lt
    have hzero : (0 : UInt64).toNat = 0 := rfl
    simp only [LevelTracker.extended, opened, satAdd64_toNat, hzero]
    omega
  orders := by
    rw [LevelTracker.extended, satAdd32_toNat]
    exact Nat.le_refl 2

theorem Unfinished.afterCancel {t : LevelTracker} (h : t.Unfinished) :
    t.afterCancel 0 = some (t.charged 0) := by
  simp [LevelTracker.afterCancel, h.charged.not_fullyCancelled]

/-- The delete of the only order takes all of it. -/
theorem charged_opened (ev : SequencedEvent) (h : 1 ≤ ev.event.qty) :
    (opened ev).charged 0 = { opened ev with cancelledQty := ev.event.qty, cancelCount := 1 } := by
  have hqty : 1 ≤ ev.event.qty.toNat := UInt64.le_iff_toNat_le.mp h
  have hlt := ev.event.qty.toNat_lt
  have hone : (1 : UInt32).toNat = 1 := rfl
  have hzero : (0 : UInt64).toNat = 0 := rfl
  have hremoved : (opened ev).removedQty 0 = ev.event.qty := by
    apply UInt64.toNat_inj.mp
    rw [removedQty_zero]
    simp only [opened, hone, hzero, Nat.max_self, Nat.div_one]
    omega
  have hall : satAdd64 0 ev.event.qty = ev.event.qty := by
    apply UInt64.toNat_inj.mp
    rw [satAdd64_toNat, hzero]
    omega
  rw [charged, hremoved]
  exact LevelTracker.ext rfl rfl rfl hall rfl rfl

theorem fullyCancelled_opened (ev : SequencedEvent) (h : 1 ≤ ev.event.qty) :
    ((opened ev).charged 0).fullyCancelled = true := by
  rw [charged_opened ev h]
  simp [fullyCancelled, opened]

end LevelTracker

/-- What a level makes of the events that touch it. -/
def life (o : Option LevelTracker) (ev : SequencedEvent) : Option LevelTracker :=
  match EventType.fromU8 ev.event.eventType with
  | some .orderAdd => some (.entered o ev)
  | some .orderCancel => o.bind fun t => t.afterCancel ev.event.qty
  | _ => o

theorem life_opened {ev : SequencedEvent} {key : LevelKey} (h : AddsAt ev key) :
    life none ev = some (.opened ev) := by
  simp only [life, h.1, LevelTracker.entered]

theorem life_extended {ev : SequencedEvent} {key : LevelKey} (h : AddsAt ev key)
    (t : LevelTracker) : life (some t) ev = some (t.extended ev.event.qty) := by
  simp only [life, h.1, LevelTracker.entered]

/-- With two orders or more, no add and no full delete ends the tracker. -/
theorem life_unfinished {key : LevelKey} {evs : List SequencedEvent}
    (hevs : ∀ ev ∈ evs, AddsAt ev key ∨ (Cancels ev ev.event.orderId ∧ ev.event.qty = 0))
    {t : LevelTracker} (h : t.Unfinished) : ∃ s, evs.foldl life (some t) = some s ∧ s.Unfinished := by
  induction evs generalizing t with
  | nil => exact ⟨t, rfl, h⟩
  | cons ev evs ih =>
    have hrest : ∀ e ∈ evs, AddsAt e key ∨ (Cancels e e.event.orderId ∧ e.event.qty = 0) :=
      fun e he => hevs e (by simp [he])
    rw [List.foldl_cons]
    rcases hevs ev (by simp) with hadd | ⟨hcancel, hqty⟩
    · rw [life_extended hadd]
      exact ih hrest (h.extended ev.event.qty)
    · have hlife : life (some t) ev = some (t.charged 0) := by
        simp only [life, hcancel.1, hqty, Option.bind_some]
        exact h.afterCancel
      rw [hlife]
      exact ih hrest h.charged

/-- An add at the level, or a cancel, modify or trade of it: those of an order count by its id, and the
side and price of a cancel that names an order count for nothing. -/
def touches (key : LevelKey) (ids : List UInt64) (e : Event) : Bool :=
  match EventType.fromU8 e.eventType with
  | some .orderAdd => decide (levelOf e = key ∨ e.orderId ∈ ids)
  | some .orderModify => decide (levelOf e = key ∨ e.orderId ∈ ids)
  | some .trade => decide (levelOf e = key ∨ e.orderId ∈ ids)
  | some .orderCancel =>
    if e.orderId ≠ 0 then decide (e.orderId ∈ ids) else decide (levelOf e = key)
  | _ => false

/-- The orders that a list of events names. -/
def idsOf (evs : List SequencedEvent) : List UInt64 := evs.map fun ev => ev.event.orderId

/-- All that happens at a level: orders of one quantity are added, then each is deleted in full. -/
structure EqualCycle (key : LevelKey) (q : UInt64) (adds deletes evs : List SequencedEvent) :
    Prop where
  activity : evs.filter (fun ev => touches key (idsOf adds) ev.event) = adds ++ deletes
  added : ∀ a ∈ adds, AddsAt a key ∧ a.event.orderId ≠ 0 ∧ a.event.qty = q
  deleted : ∀ c ∈ deletes, Cancels c c.event.orderId ∧ c.event.qty = 0
  once : (idsOf adds).Nodup
  all : (idsOf deletes).Perm (idsOf adds)

/-- Some of the adds at a level, and then some of their deletes. -/
structure CyclePart (key : LevelKey) (adds deletes : List SequencedEvent) : Prop where
  added : ∀ a ∈ adds, AddsAt a key ∧ a.event.orderId ≠ 0
  deleted : ∀ c ∈ deletes, Cancels c c.event.orderId
  once : (idsOf deletes).Nodup
  known : idsOf deletes ⊆ idsOf adds

theorem CyclePart.init {key : LevelKey} {adds deletes : List SequencedEvent} {c : SequencedEvent}
    (h : CyclePart key adds (deletes ++ [c])) : CyclePart key adds deletes where
  added := h.added
  deleted e he := h.deleted e (by simp [he])
  once := h.once.sublist (by simp [idsOf])
  known := List.Subset.trans (by simp [idsOf]) h.known

/-- The last delete is the first of its order. -/
theorem CyclePart.last {key : LevelKey} {adds deletes : List SequencedEvent} {c : SequencedEvent}
    (h : CyclePart key adds (deletes ++ [c])) :
    c.event.orderId ≠ 0 ∧ c.event.orderId ∈ idsOf adds ∧ c.event.orderId ∉ idsOf deletes := by
  have hin : c.event.orderId ∈ idsOf adds := h.known (by simp [idsOf])
  obtain ⟨a, ha, hid⟩ := List.mem_map.mp hin
  refine ⟨hid ▸ (h.added a ha).2, hin, ?_⟩
  have honce := h.once
  rw [idsOf, List.map_append, List.nodup_append] at honce
  intro hmem
  exact honce.2.2 _ hmem _ (by simp) rfl

theorem EqualCycle.part {key : LevelKey} {q : UInt64} {adds deletes evs : List SequencedEvent}
    (h : EqualCycle key q adds deletes evs) : CyclePart key adds deletes where
  added a ha := ⟨(h.added a ha).1, (h.added a ha).2.1⟩
  deleted c hc := (h.deleted c hc).1
  once := h.all.nodup_iff.mpr h.once
  known := h.all.subset

namespace PhantomLiquidityDetector

/-- The event makes the detector drop its oldest level. -/
def evicts (d : PhantomLiquidityDetector) (ev : SequencedEvent) : Bool :=
  match EventType.fromU8 ev.event.eventType with
  | some .orderAdd => decide (d.maxTracked ≤ d.levels.size ∧ d.levels.size ≠ 0)
  | some .orderModify =>
    decide (d.maxTracked ≤ (d.onCancel ev).1.levels.size ∧ (d.onCancel ev).1.levels.size ≠ 0)
  | _ => false

theorem makeRoom_of_room {d : PhantomLiquidityDetector}
    (h : ¬ (d.maxTracked ≤ d.levels.size ∧ d.levels.size ≠ 0)) : d.makeRoom = d := by
  simp only [makeRoom]
  split_ifs with hfull
  · rcases d.evictOldest_spec with ⟨_, he⟩ | ⟨key, t, ht, _⟩
    · exact he
    · have hsize := FiniteMap.size_erase_bound d.levels key t ht
      exact absurd ⟨hfull, by omega⟩ h
  · rfl

section

variable {d : PhantomLiquidityDetector} {ev : SequencedEvent} {key : LevelKey} {ids : List UInt64}

/-- The mappings into a level stay when an event does not touch it. -/
theorem process_order_aside (haside : touches key ids ev.event = false)
    (hids : ∀ i : UInt64, d.orders[i]? = some key → i ∈ ids) (i : UInt64) :
    (d.process ev).1.orders[i]? = some key ↔ d.orders[i]? = some key := by
  rw [process_order]
  split_ifs with hi
  · obtain ⟨hid, rfl⟩ := hi
    have hold (hout : ev.event.orderId ∉ ids) : d.orders[ev.event.orderId]? ≠ some key :=
      fun h => hout (hids _ h)
    simp only [touches] at haside
    simp only [remapped]
    split at haside
    · next htype =>
      simp only [decide_eq_false_iff_not, not_or] at haside
      simp [htype, haside.1, hold haside.2]
    · next htype =>
      simp only [decide_eq_false_iff_not, not_or] at haside
      simp [htype, haside.1, hold haside.2]
    · next htype => simp [htype]
    · next htype =>
      rw [if_pos hid, decide_eq_false_iff_not] at haside
      simp [htype, hold haside]
    · split <;> simp_all
  · rfl

theorem target_aside (ids : List UInt64) (hown : ev.event.orderId = 0 → levelOf ev.event ≠ key)
    (hout : ev.event.orderId ≠ 0 → ev.event.orderId ∉ ids)
    (hids : ∀ i : UInt64, d.orders[i]? = some key → i ∈ ids) :
    d.target ev.event ≠ some key := by
  rw [target]
  split_ifs with hid
  · exact fun h => hout hid (hids _ h)
  · intro h
    exact hown (by simpa using hid) (Option.some.inj h)

theorem onAdd_level_aside (hroom : ¬ (d.maxTracked ≤ d.levels.size ∧ d.levels.size ≠ 0))
    (hlevel : levelOf ev.event ≠ key) : (d.onAdd ev).levels[key]? = d.levels[key]? := by
  rw [onAdd_level, if_neg (Ne.symm hlevel), makeRoom_of_room hroom]

/-- So does its tracker, unless it is evicted. -/
theorem process_level_aside (haside : touches key ids ev.event = false)
    (hevict : d.evicts ev = false) (hids : ∀ i : UInt64, d.orders[i]? = some key → i ∈ ids) :
    (d.process ev).1.levels[key]? = d.levels[key]? := by
  have hcancel (htarget : d.target ev.event ≠ some key) :
      (d.onCancel ev).1.levels[key]? = d.levels[key]? := by
    rw [onCancel_level, if_neg htarget]
  simp only [touches] at haside
  simp only [evicts] at hevict
  simp only [process]
  cases htype : EventType.fromU8 ev.event.eventType with
  | none => rfl
  | some etype =>
    simp only [htype] at haside hevict
    cases etype with
    | orderAdd =>
      simp only [decide_eq_false_iff_not, not_or] at haside hevict
      exact onAdd_level_aside hevict haside.1
    | orderCancel =>
      refine hcancel (target_aside ids ?_ ?_ hids)
      · intro hid
        simpa [hid] using haside
      · intro hid
        simpa [hid] using haside
    | orderModify =>
      simp only [decide_eq_false_iff_not, not_or] at haside hevict
      have hroom := (d.sameSettings_onCancel ev).maxTracked
      refine (onAdd_level_aside (by rw [hroom]; exact hevict) haside.1).trans (hcancel ?_)
      exact target_aside ids (fun _ => haside.1) (fun _ => haside.2) hids
    | trade =>
      simp only [decide_eq_false_iff_not, not_or] at haside
      rw [onTrade_level, if_neg (Ne.symm haside.1)]
    | bookSnapshot => rfl

end

/-- Where the detector stands after part of a cycle. -/
structure Phase (d : PhantomLiquidityDetector) (key : LevelKey)
    (adds deletes : List SequencedEvent) : Prop where
  level : d.levels[key]? = (adds ++ deletes).foldl life none
  mapped : ∀ i : UInt64, d.orders[i]? = some key ↔ i ∈ idsOf adds ∧ i ∉ idsOf deletes

section

variable {d : PhantomLiquidityDetector} {key : LevelKey} {adds deletes : List SequencedEvent}
  {ev : SequencedEvent}

theorem Phase.add (h : d.Phase key adds []) (hadd : AddsAt ev key) (hid : ev.event.orderId ≠ 0)
    (hevict : d.evicts ev = false) : (d.process ev).1.Phase key (adds ++ [ev]) [] where
  level := by
    have hlevel := h.level
    simp only [evicts, hadd.1, decide_eq_false_iff_not] at hevict
    simp only [process, hadd.1]
    rw [onAdd_level, hadd.2, if_pos rfl, makeRoom_of_room hevict, hlevel]
    simp [life, hadd.1]
  mapped i := by
    have hmapped := h.mapped i
    rw [process_order]
    by_cases hi : i = ev.event.orderId
    · simp [hi, hid, remapped, hadd.1, hadd.2, idsOf]
    · simpa [hi, idsOf] using hmapped

theorem Phase.target (h : d.Phase key adds deletes) (hid : ev.event.orderId ≠ 0)
    (hin : ev.event.orderId ∈ idsOf adds) (hout : ev.event.orderId ∉ idsOf deletes) :
    d.target ev.event = some key := by
  rw [PhantomLiquidityDetector.target, if_pos hid]
  exact (h.mapped _).mpr ⟨hin, hout⟩

theorem Phase.cancel (h : d.Phase key adds deletes) (hcancel : Cancels ev ev.event.orderId)
    (hid : ev.event.orderId ≠ 0) (hin : ev.event.orderId ∈ idsOf adds)
    (hout : ev.event.orderId ∉ idsOf deletes) :
    (d.process ev).1.Phase key adds (deletes ++ [ev]) where
  level := by
    have hlevel := h.level
    simp only [process, hcancel.1]
    rw [onCancel_level, if_pos (h.target hid hin hout), hlevel, ← List.append_assoc,
      List.foldl_append (l := adds ++ deletes)]
    simp [life, hcancel.1]
  mapped i := by
    have hmapped := h.mapped i
    rw [process_order]
    by_cases hi : i = ev.event.orderId
    · simp [hi, hid, remapped, hcancel.1, idsOf]
    · simpa [hi, idsOf] using hmapped

theorem Phase.aside (h : d.Phase key adds deletes) {ids : List UInt64} (hids : idsOf adds ⊆ ids)
    (haside : touches key ids ev.event = false) (hevict : d.evicts ev = false) :
    (d.process ev).1.Phase key adds deletes where
  level := (process_level_aside haside hevict fun i hi => hids ((h.mapped i).mp hi).1).trans h.level
  mapped i :=
    (process_order_aside haside (fun i hi => hids ((h.mapped i).mp hi).1) i).trans (h.mapped i)

end

/-- Whatever else happens, the level sees its own adds and deletes only. -/
theorem phase_run {d : PhantomLiquidityDetector} (hlevels : d.levels = ∅) (horders : d.orders = ∅)
    {key : LevelKey} {ids : List UInt64} {evs adds deletes : List SequencedEvent}
    (hevict : ∀ p ev, p ++ [ev] <+: evs → (d.run p).evicts ev = false)
    (hpart : CyclePart key adds deletes) (hids : idsOf adds ⊆ ids)
    (hfilter : evs.filter (fun ev => touches key ids ev.event) = adds ++ deletes) :
    (d.run evs).Phase key adds deletes := by
  induction evs using List.reverseRecOn generalizing adds deletes with
  | nil =>
    obtain ⟨rfl, rfl⟩ := List.append_eq_nil_iff.mp hfilter.symm
    exact ⟨by simp [run, hlevels], by simp [run, horders, idsOf]⟩
  | append_singleton evs ev ih =>
    have hpre : evs <+: evs ++ [ev] := List.prefix_append evs [ev]
    have hroom := hevict evs ev List.prefix_rfl
    have hrec {adds deletes : List SequencedEvent} (hpart : CyclePart key adds deletes)
        (hids : idsOf adds ⊆ ids)
        (hfilter : evs.filter (fun ev => touches key ids ev.event) = adds ++ deletes) :=
      ih (fun p e hp => hevict p e (hp.trans hpre)) hpart hids hfilter
    rw [run_concat]
    rw [List.filter_append] at hfilter
    cases htouch : touches key ids ev.event with
    | false =>
      rw [List.filter_cons_of_neg (by simp [htouch]), List.filter_nil, List.append_nil] at hfilter
      exact (hrec hpart hids hfilter).aside hids htouch hroom
    | true =>
      rw [List.filter_cons_of_pos (by simp [htouch]), List.filter_nil] at hfilter
      -- the event is the last of the deletes, or of the adds while there is no delete yet
      rcases List.eq_nil_or_concat' deletes with rfl | ⟨ds, c, rfl⟩
      · rcases List.eq_nil_or_concat' adds with rfl | ⟨as, a, rfl⟩
        · exact absurd hfilter (by simp)
        · rw [List.append_nil] at hfilter
          obtain ⟨hrest, hlast⟩ := List.append_inj' hfilter rfl
          obtain rfl : ev = a := by simpa using hlast
          obtain ⟨hadd, hid⟩ := hpart.added ev (by simp)
          have hpart' : CyclePart key as [] :=
            ⟨fun e he => hpart.added e (by simp [he]), by simp, List.nodup_nil, by simp [idsOf]⟩
          have hids' : idsOf as ⊆ ids := List.Subset.trans (by simp [idsOf]) hids
          exact (hrec hpart' hids' (by simpa using hrest)).add hadd hid hroom
      · rw [← List.append_assoc] at hfilter
        obtain ⟨hrest, hlast⟩ := List.append_inj' hfilter rfl
        obtain rfl : ev = c := by simpa using hlast
        obtain ⟨hid, hin, hout⟩ := hpart.last
        exact (hrec hpart.init hids hrest).cancel (hpart.deleted ev (by simp)) hid hin hout

theorem SameSettings.qualifies {d d' : PhantomLiquidityDetector} (h : d.SameSettings d')
    (t : LevelTracker) (ev : SequencedEvent) : d'.Qualifies t ev ↔ d.Qualifies t ev := by
  simp only [Qualifies, insideWindow, h.maxSeqGap, h.maxTimeGapNs, h.minQty]

/-- When the cancel of a tracked level flags it. -/
theorem process_cancel_flag {d : PhantomLiquidityDetector} {ev : SequencedEvent} {key : LevelKey}
    {t : LevelTracker} (hcancel : EventType.fromU8 ev.event.eventType = some .orderCancel)
    (hkey : d.target ev.event = some key) (ht : d.levels[key]? = some t) :
    (d.process ev).2.isSome = true ↔ (t.charged ev.event.qty).fullyCancelled = true ∧
      d.Qualifies (t.charged ev.event.qty) ev := by
  have hrelease := (d.sameSettings_release ev.event).qualifies (t.charged ev.event.qty) ev
  simp only [process, hcancel]
  rcases d.onCancel_cases ev with ⟨hnone, _⟩ | ⟨key', s, hkey', hs, h⟩
  · rw [hnone key hkey] at ht
    exact absurd ht (by simp)
  · obtain rfl : key' = key := Option.some.inj (hkey'.symm.trans hkey)
    obtain rfl : s = t := Option.some.inj (hs.symm.trans ht)
    rw [h, Option.isSome_iff_exists, ← hrelease]
    constructor
    · rintro ⟨f, hf⟩
      exact ⟨(charge_flag.mp hf).1, (charge_flag.mp hf).2.1⟩
    · intro hall
      exact ⟨_, charge_flag.mpr ⟨hall.1, hall.2, rfl⟩⟩

end PhantomLiquidityDetector

section

variable {key : LevelKey} {q : UInt64} {first second last : SequencedEvent}
  {adds rest deletes evs : List SequencedEvent}

/-- What happens at the level before the last delete. -/
theorem EqualCycle.front (h : EqualCycle key q adds (deletes ++ [last]) (evs ++ [last])) :
    evs.filter (fun ev => touches key (idsOf adds) ev.event) = adds ++ deletes := by
  obtain ⟨hid, hin, _⟩ := h.part.last
  have hcancel := (h.deleted last (by simp)).1
  have htouch : touches key (idsOf adds) last.event = true := by
    simp [touches, hcancel.1, hid, hin]
  have hall := h.activity
  rw [List.filter_append, List.filter_cons_of_pos (by simp [htouch]), List.filter_nil,
    ← List.append_assoc] at hall
  exact (List.append_inj' hall rfl).1

/-- With a second order at the level, quantity is left before the last delete. -/
theorem EqualCycle.unfinished
    (h : EqualCycle key q (first :: second :: rest) (deletes ++ [last]) evs) (hq : 1 ≤ q) :
    ∃ t, (first :: second :: rest ++ deletes).foldl life none = some t ∧ t.Unfinished := by
  obtain ⟨hfirst, _, hqty⟩ := h.added first (by simp)
  obtain ⟨hsecond, _, _⟩ := h.added second (by simp)
  have hevs : ∀ ev ∈ rest ++ deletes,
      AddsAt ev key ∨ (Cancels ev ev.event.orderId ∧ ev.event.qty = 0) := by
    intro ev hev
    rcases List.mem_append.mp hev with hev | hev
    · exact Or.inl (h.added ev (by simp [hev])).1
    · exact Or.inr (h.deleted ev (by simp [hev]))
  rw [List.cons_append, List.cons_append, List.foldl_cons, List.foldl_cons, life_opened hfirst,
    life_extended hsecond]
  exact life_unfinished hevs (LevelTracker.unfinished_second (hqty ▸ hq) second.event.qty)

end

/-- A level whose orders, all of one quantity, are added and then deleted in full, with nothing else
happening there, nothing evicted and the cycle inside a window, is flagged on the last delete exactly
when it held a single order. -/
theorem cycle_flagged_iff (maxSeqGap maxTimeGapNs : UInt64) (maxTracked : Nat) (minQty : UInt64)
    (hashOrder : HashOrder) {key : LevelKey} {q : UInt64} (hq : 1 ≤ q)
    {first last : SequencedEvent} {rest deletes evs : List SequencedEvent}
    (hcycle : EqualCycle key q (first :: rest) (deletes ++ [last]) (evs ++ [last]))
    (hfloor : minQty.toNat ≤ (first :: rest).length * q.toNat)
    (hevict : ∀ p ev, p ++ [ev] <+: evs ++ [last] →
      ((PhantomLiquidityDetector.new maxSeqGap maxTimeGapNs maxTracked minQty hashOrder).run
        p).evicts ev = false)
    (hwindow : (0 < maxSeqGap ∧ satSub64 last.seq first.seq ≤ maxSeqGap) ∨
      (0 < maxTimeGapNs ∧ satSub64 last.event.ts first.event.ts ≤ maxTimeGapNs)) :
    (((PhantomLiquidityDetector.new maxSeqGap maxTimeGapNs maxTracked minQty hashOrder).run
      evs).process last).2.isSome = true ↔ (first :: rest).length = 1 := by
  set d := PhantomLiquidityDetector.new maxSeqGap maxTimeGapNs maxTracked minQty hashOrder with hd
  obtain ⟨hcancel, hdelete⟩ := hcycle.deleted last (by simp)
  obtain ⟨hid, hin, hout⟩ := hcycle.part.last
  have hphase := PhantomLiquidityDetector.phase_run (d := d) rfl rfl
    (fun p ev hp => hevict p ev (hp.trans (List.prefix_append _ _))) hcycle.part.init
    (List.Subset.refl _) hcycle.front
  have htarget := hphase.target hid hin hout
  have hlevel := hphase.level
  cases rest with
  | nil =>
    -- a single order: its delete takes all of it
    obtain ⟨hfirst, _, hqty⟩ := hcycle.added first (by simp)
    have hnil : deletes = [] := by
      have hlen := hcycle.all.length_eq
      simpa [idsOf] using hlen
    rw [hnil, List.append_nil, List.foldl_cons, List.foldl_nil, life_opened hfirst] at hlevel
    have hfull := LevelTracker.fullyCancelled_opened first (hqty ▸ hq)
    rw [PhantomLiquidityDetector.process_cancel_flag hcancel.1 htarget hlevel, hdelete]
    simp only [List.length_cons, List.length_nil, iff_true]
    refine ⟨hfull, ((d.sameSettings_run evs).qualifies _ last).mpr ⟨?_, ?_⟩⟩
    · rw [UInt64.le_iff_toNat_le]
      rw [← hqty] at hfloor
      simpa [hd, PhantomLiquidityDetector.new, LevelTracker.charged, LevelTracker.opened] using hfloor
    · simpa [hd, PhantomLiquidityDetector.insideWindow, PhantomLiquidityDetector.new,
        LevelTracker.charged, LevelTracker.opened] using hwindow
  | cons second rest =>
    -- two orders or more: quantity is left after every delete
    obtain ⟨t, ht, hleft⟩ := hcycle.unfinished hq
    rw [ht] at hlevel
    rw [PhantomLiquidityDetector.process_cancel_flag hcancel.1 htarget hlevel, hdelete]
    simp [hleft.charged.not_fullyCancelled]

/-- A bid that is added and deleted around the add and the execution of an ask. -/
def oneOrder : List SequencedEvent :=
  [⟨1, 0, ⟨1, 100, 10, 1, 1, 1, 0⟩, 0, 0⟩, ⟨2, 0, ⟨2, 101, 10, 2, 1, 1, 1⟩, 0, 0⟩,
    ⟨3, 0, ⟨3, 0, 4, 2, 1, 4, 0⟩, 0, 0⟩]

theorem cycle_flagged_one :
    (((PhantomLiquidityDetector.new 100 0 64 10 .byLevel).run oneOrder).process
      ⟨4, 0, ⟨4, 0, 0, 1, 1, 2, 0⟩, 0, 0⟩).2.isSome = true := by
  have hcycle : EqualCycle ⟨0, 100⟩ 10 [⟨1, 0, ⟨1, 100, 10, 1, 1, 1, 0⟩, 0, 0⟩]
      ([] ++ [⟨4, 0, ⟨4, 0, 0, 1, 1, 2, 0⟩, 0, 0⟩])
      (oneOrder ++ [⟨4, 0, ⟨4, 0, 0, 1, 1, 2, 0⟩, 0, 0⟩]) :=
    ⟨by decide, by decide, by decide, by decide, by decide⟩
  refine (cycle_flagged_iff 100 0 64 10 .byLevel (by decide) hcycle (by decide) ?_
    (by decide)).mpr rfl
  intro p ev hp
  refine steps_of_get (P := fun p ev =>
    ((PhantomLiquidityDetector.new 100 0 64 10 .byLevel).run p).evicts ev = false) ?_ hp
  decide

/-- Two bids of 10 and their deletes. -/
def twoOrders : List SequencedEvent :=
  [⟨1, 0, ⟨1, 100, 10, 1, 1, 1, 0⟩, 0, 0⟩, ⟨2, 0, ⟨2, 100, 10, 2, 1, 1, 0⟩, 0, 0⟩,
    ⟨3, 0, ⟨3, 0, 0, 1, 1, 2, 0⟩, 0, 0⟩, ⟨4, 0, ⟨4, 0, 0, 2, 1, 2, 0⟩, 0, 0⟩]

/-- The deletes count as 10 and 5, and the level is not flagged. -/
theorem cycle_missed_two :
    EqualCycle ⟨0, 100⟩ 10 (twoOrders.take 2) (twoOrders.drop 2) twoOrders ∧
    (∀ p ev, p ++ [ev] <+: twoOrders →
      ((PhantomLiquidityDetector.new 100 0 64 10 .byLevel).run p).evicts ev = false) ∧
    (10 : UInt64).toNat ≤ 2 * (10 : UInt64).toNat ∧ satSub64 4 1 ≤ 100 ∧
    ¬ (((PhantomLiquidityDetector.new 100 0 64 10 .byLevel).run (twoOrders.take 3)).process
      ⟨4, 0, ⟨4, 0, 0, 2, 1, 2, 0⟩, 0, 0⟩).2.isSome = true := by
  refine ⟨⟨by decide, by decide, by decide, by decide, by decide⟩, ?_, by decide, by decide,
    by decide⟩
  intro p ev hp
  refine steps_of_get (P := fun p ev =>
    ((PhantomLiquidityDetector.new 100 0 64 10 .byLevel).run p).evicts ev = false) ?_ hp
  decide

end Flowlab.Chaos
