import Mathlib.Data.List.Dedup
import Flowlab.Chaos.PhantomLiquidity

namespace Flowlab.Chaos

open Std Framework Framework.Machine
open Flowlab.Core (EventType SequencedEvent)

/-- What an event makes of the order that it names: adds and modifies open it, cancels close it, and
trades leave it. -/
def opens (ev : SequencedEvent) (was : Bool) : Bool :=
  match EventType.fromU8 ev.event.eventType with
  | some .orderAdd => true
  | some .orderModify => true
  | some .orderCancel => false
  | _ => was

/-- The order has been added or modified and not been cancelled since. -/
def isOpen (i : UInt64) (evs : List SequencedEvent) : Bool :=
  evs.foldl (fun was ev => if ev.event.orderId = i then opens ev was else was) false

/-- The orders of a stream that are open at its end. -/
def openOrders (evs : List SequencedEvent) : List UInt64 :=
  (evs.map fun ev => ev.event.orderId).dedup.filter fun i => decide (i ≠ 0) && isOpen i evs

theorem isOpen_concat (i : UInt64) (evs : List SequencedEvent) (ev : SequencedEvent) :
    isOpen i (evs ++ [ev]) = if ev.event.orderId = i then opens ev (isOpen i evs) else isOpen i evs :=
  List.foldl_append

/-- An open order has been named. -/
theorem mem_of_isOpen {i : UInt64} {evs : List SequencedEvent} (h : isOpen i evs = true) :
    i ∈ evs.map fun ev => ev.event.orderId := by
  induction evs using List.reverseRecOn with
  | nil => simp [isOpen] at h
  | append_singleton evs ev ih =>
    rw [isOpen_concat] at h
    rw [List.map_append, List.mem_append]
    split_ifs at h with hi
    · exact Or.inr (by simp [hi])
    · exact Or.inl (ih h)

theorem mem_openOrders {i : UInt64} {evs : List SequencedEvent} :
    i ∈ openOrders evs ↔ i ≠ 0 ∧ isOpen i evs = true := by
  rw [openOrders, List.mem_filter, List.mem_dedup]
  constructor
  · intro h
    simpa using h.2
  · intro h
    exact ⟨mem_of_isOpen h.2, by simpa using h⟩

namespace PhantomLiquidityDetector

theorem makeRoom_size {d : PhantomLiquidityDetector} (hmax : 1 ≤ d.maxTracked)
    (h : d.levels.size ≤ d.maxTracked) : d.makeRoom.levels.size < d.maxTracked := by
  rcases d.makeRoom_spec with ⟨hfree, hroom⟩ | ⟨key, t, ht, hroom⟩
  · rw [hroom]
    omega
  · have hsize := FiniteMap.size_erase_bound d.levels key t ht
    rw [hroom]
    dsimp only
    omega

/-- An add makes room for the one level that it may bring. -/
theorem onAdd_size {d : PhantomLiquidityDetector} (hmax : 1 ≤ d.maxTracked)
    (h : d.levels.size ≤ d.maxTracked) (ev : SequencedEvent) :
    (d.onAdd ev).levels.size ≤ d.maxTracked := by
  have hroom := makeRoom_size hmax h
  have hinsert := ExtTreeMap.size_insert_le (t := d.makeRoom.levels) (k := levelOf ev.event)
    (v := LevelTracker.entered d.makeRoom.levels[levelOf ev.event]? ev)
  rw [onAdd]
  dsimp only
  omega

theorem charge_size {d : PhantomLiquidityDetector} {key : LevelKey} {t : LevelTracker}
    (h : d.levels[key]? = some t) (ev : SequencedEvent) :
    (d.charge key t ev).1.levels.size ≤ d.levels.size := by
  simp only [charge]
  split
  · exact ExtTreeMap.size_erase_le
  · exact (FiniteMap.size_insert_bound d.levels key _ h).le

theorem onCancel_size (d : PhantomLiquidityDetector) (ev : SequencedEvent) :
    (d.onCancel ev).1.levels.size ≤ d.levels.size := by
  rcases d.onCancel_cases ev with ⟨_, h⟩ | ⟨key, t, _, ht, h⟩
  · rw [h, release_levels]
  · rw [← d.release_levels ev.event] at ht
    rw [h, ← d.release_levels ev.event]
    exact charge_size ht ev

theorem process_size {d : PhantomLiquidityDetector} (hmax : 1 ≤ d.maxTracked)
    (h : d.levels.size ≤ d.maxTracked) (ev : SequencedEvent) :
    (d.process ev).1.levels.size ≤ d.maxTracked := by
  have hcancel := (d.onCancel_size ev).trans h
  have hsame := (d.sameSettings_onCancel ev).maxTracked
  simp only [process]
  split
  · exact h
  · exact onAdd_size hmax h ev
  · exact hcancel
  · rw [← hsame] at hmax hcancel ⊢
    exact onAdd_size hmax hcancel ev
  · exact ExtTreeMap.size_erase_le.trans h
  · exact h

/-- The levels stay within their bound. -/
theorem run_size {d : PhantomLiquidityDetector} (hmax : 1 ≤ d.maxTracked)
    (h : d.levels.size ≤ d.maxTracked) (evs : List SequencedEvent) :
    (d.run evs).levels.size ≤ d.maxTracked := by
  induction evs using List.reverseRecOn with
  | nil => exact h
  | append_singleton evs ev ih =>
    have hsame := (d.sameSettings_run evs).maxTracked
    rw [run_concat, ← hsame]
    rw [← hsame] at hmax ih
    exact process_size hmax ih ev

/-- The orders that are mapped are the open ones. -/
theorem orders_open {d : PhantomLiquidityDetector} (hnew : d.orders = ∅)
    (evs : List SequencedEvent) (i : UInt64) :
    (d.run evs).orders[i]?.isSome = (decide (i ≠ 0) && isOpen i evs) := by
  induction evs using List.reverseRecOn with
  | nil => simp [run, hnew, isOpen]
  | append_singleton evs ev ih =>
    rw [run_concat, process_order, isOpen_concat]
    by_cases hi : i = ev.event.orderId
    · subst hi
      by_cases hid : ev.event.orderId = 0
      · rw [hid] at ih
        simpa [hid] using ih
      · rw [if_pos ⟨hid, rfl⟩, if_pos rfl]
        simp only [remapped, opens]
        split <;> simp_all
    · rw [if_neg (fun h => hi h.2), if_neg (Ne.symm hi)]
      exact ih

theorem orders_size {d : PhantomLiquidityDetector} (hnew : d.orders = ∅)
    (evs : List SequencedEvent) : (d.run evs).orders.size = (openOrders evs).length := by
  have hperm : (d.run evs).orders.keys.Perm (openOrders evs) := by
    refine (List.perm_ext_iff_of_nodup ExtTreeMap.nodup_keys ?_).mpr ?_
    · exact (List.nodup_dedup _).filter _
    · intro i
      have hopen := orders_open hnew evs i
      rw [ExtTreeMap.mem_keys, mem_openOrders, ExtTreeMap.mem_iff_isSome_getElem?, hopen]
      simp
  rw [← ExtTreeMap.length_keys, hperm.length_eq]

end PhantomLiquidityDetector

/-- Both maps stay within `max_tracked` along a stream exactly when no more than `max_tracked` orders
are open at any time in it. -/
theorem tracked_within_iff (maxSeqGap maxTimeGapNs : UInt64) {maxTracked : Nat}
    (hmax : 1 ≤ maxTracked) (minQty : UInt64) (hashOrder : HashOrder) (evs : List SequencedEvent) :
    (∀ p, p <+: evs →
        ((PhantomLiquidityDetector.new maxSeqGap maxTimeGapNs maxTracked minQty hashOrder).run
          p).levels.size ≤ maxTracked ∧
        ((PhantomLiquidityDetector.new maxSeqGap maxTimeGapNs maxTracked minQty hashOrder).run
          p).orders.size ≤ maxTracked) ↔
      ∀ p, p <+: evs → (openOrders p).length ≤ maxTracked := by
  have hlevels (p : List SequencedEvent) := PhantomLiquidityDetector.run_size
    (d := .new maxSeqGap maxTimeGapNs maxTracked minQty hashOrder) hmax (Nat.zero_le _) p
  have horders (p : List SequencedEvent) := PhantomLiquidityDetector.orders_size
    (d := .new maxSeqGap maxTimeGapNs maxTracked minQty hashOrder) rfl p
  simp only [horders]
  constructor
  · intro h p hp
    exact (h p hp).2
  · intro h p hp
    exact ⟨hlevels p, h p hp⟩

/-- An order that is deleted before the next is added. -/
def oneAtATime : List SequencedEvent :=
  [⟨1, 0, ⟨1, 100, 10, 1, 1, 1, 0⟩, 0, 0⟩, ⟨2, 0, ⟨2, 0, 0, 1, 1, 2, 0⟩, 0, 0⟩,
    ⟨3, 0, ⟨3, 101, 10, 2, 1, 1, 0⟩, 0, 0⟩]

theorem tracked_within_one :
    ((PhantomLiquidityDetector.new 100 0 1 1 .byLevel).run oneAtATime).levels.size ≤ 1 ∧
    ((PhantomLiquidityDetector.new 100 0 1 1 .byLevel).run oneAtATime).orders.size ≤ 1 := by
  refine (tracked_within_iff 100 0 (by decide) 1 .byLevel oneAtATime).mpr ?_ _ List.prefix_rfl
  intro p hp
  refine parts_of_get (P := fun p => (openOrders p).length ≤ 1) ?_ hp
  decide

/-- Two adds at one level. -/
def twoAtOnce : List SequencedEvent :=
  [⟨1, 0, ⟨1, 100, 10, 1, 1, 1, 0⟩, 0, 0⟩, ⟨2, 0, ⟨2, 100, 10, 2, 1, 1, 0⟩, 0, 0⟩]

/-- With a bound of one, they leave two mappings. -/
theorem orders_beyond_one :
    ¬ (((PhantomLiquidityDetector.new 100 0 1 1 .byLevel).run twoAtOnce).levels.size ≤ 1 ∧
      ((PhantomLiquidityDetector.new 100 0 1 1 .byLevel).run twoAtOnce).orders.size ≤ 1) := by
  decide

end Flowlab.Chaos
