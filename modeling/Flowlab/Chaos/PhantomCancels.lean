import Mathlib.Data.Finset.Card
import Flowlab.Chaos.PhantomTrades

namespace Flowlab.Chaos

open Std Framework Framework.Machine
open Flowlab.Core (Event EventType SequencedEvent)

/-- An add at a level. -/
def AddsAt (ev : SequencedEvent) (key : LevelKey) : Prop :=
  EventType.fromU8 ev.event.eventType = some .orderAdd ∧ levelOf ev.event = key

instance (ev : SequencedEvent) (key : LevelKey) : Decidable (AddsAt ev key) :=
  inferInstanceAs (Decidable (_ ∧ _))

/-- A cancel of an order. -/
def Cancels (ev : SequencedEvent) (i : UInt64) : Prop :=
  EventType.fromU8 ev.event.eventType = some .orderCancel ∧ ev.event.orderId = i

instance (ev : SequencedEvent) (i : UInt64) : Decidable (Cancels ev i) :=
  inferInstanceAs (Decidable (_ ∧ _))

/-- Adds, cancels and trades in sequence order, with order ids that are unique and not zero. -/
structure AddCancelFeed (evs : List SequencedEvent) : Prop where
  ordered : evs.Pairwise fun a b => a.seq < b.seq
  kinds : ∀ ev ∈ evs, EventType.fromU8 ev.event.eventType = some .orderAdd ∨
    EventType.fromU8 ev.event.eventType = some .orderCancel ∨
    EventType.fromU8 ev.event.eventType = some .trade
  named : ∀ ev ∈ evs, EventType.fromU8 ev.event.eventType ≠ some .trade → ev.event.orderId ≠ 0
  fresh : evs.Pairwise fun a b => EventType.fromU8 a.event.eventType = some .orderAdd →
    EventType.fromU8 b.event.eventType = some .orderAdd → a.event.orderId ≠ b.event.orderId

theorem AddCancelFeed.mono {p evs : List SequencedEvent} (h : AddCancelFeed evs) (hp : p <+: evs) :
    AddCancelFeed p where
  ordered := h.ordered.sublist hp.sublist
  kinds ev hev := h.kinds ev (hp.subset hev)
  named ev hev := h.named ev (hp.subset hev)
  fresh := h.fresh.sublist hp.sublist

/-- An order added at `key` from number `s` on. -/
def AddedSince (p : List SequencedEvent) (key : LevelKey) (s i : UInt64) : Prop :=
  ∃ a ∈ p, AddsAt a key ∧ a.event.orderId = i ∧ s ≤ a.seq

instance (p : List SequencedEvent) (key : LevelKey) (s i : UInt64) :
    Decidable (AddedSince p key s i) := inferInstanceAs (Decidable (∃ a ∈ p, _))

/-- Every cancel that is charged to a tracker is of an order that was added there since the tracker was
opened, and no tracker counts its orders beyond `u32`. -/
structure OwnCancels (d : PhantomLiquidityDetector) (evs : List SequencedEvent) : Prop where
  own : ∀ p ev key t, p ++ [ev] <+: evs → Cancels ev ev.event.orderId →
    (d.run p).target ev.event = some key → (d.run p).levels[key]? = some t →
    AddedSince p key t.createdSeq ev.event.orderId
  counted : ∀ p ev key t, p ++ [ev] <+: evs → AddsAt ev key → (d.run p).levels[key]? = some t →
    t.orderCount.toNat + 1 < 2 ^ 32

theorem OwnCancels.mono {d : PhantomLiquidityDetector} {p evs : List SequencedEvent}
    (h : OwnCancels d evs) (hp : p <+: evs) : OwnCancels d p where
  own q ev key t hq := h.own q ev key t (hq.trans hp)
  counted q ev key t hq := h.counted q ev key t (hq.trans hp)

namespace PhantomLiquidityDetector

/-- The tracker of `key` counts the orders added there since it was opened: `S` are those still
mapped, the others count as cancelled. -/
structure Tally (d : PhantomLiquidityDetector) (p : List SequencedEvent) (key : LevelKey)
    (t : LevelTracker) (S : Finset UInt64) : Prop where
  mem : ∀ i : UInt64, i ∈ S ↔ d.orders[i]? = some key ∧ AddedSince p key t.createdSeq i
  count : t.orderCount.toNat = t.cancelCount.toNat + S.card

end PhantomLiquidityDetector

theorem addedSince_concat {p : List SequencedEvent} {ev : SequencedEvent} {key : LevelKey}
    {s i : UInt64} : AddedSince (p ++ [ev]) key s i ↔
      AddedSince p key s i ∨ (AddsAt ev key ∧ ev.event.orderId = i ∧ s ≤ ev.seq) := by
  simp only [AddedSince, List.mem_append, List.mem_singleton]
  constructor
  · rintro ⟨a, ha | rfl, h⟩
    · exact Or.inl ⟨a, ha, h⟩
    · exact Or.inr h
  · rintro (⟨a, ha, h⟩ | h)
    · exact ⟨a, Or.inl ha, h⟩
    · exact ⟨ev, Or.inr rfl, h⟩

/-- The id of an add is new. -/
theorem AddCancelFeed.unseen {p : List SequencedEvent} {ev : SequencedEvent}
    (h : AddCancelFeed (p ++ [ev])) (hadd : EventType.fromU8 ev.event.eventType = some .orderAdd)
    (key : LevelKey) (s : UInt64) : ¬ AddedSince p key s ev.event.orderId := by
  rintro ⟨a, ha, ⟨hadd', _⟩, hid, _⟩
  exact (List.pairwise_append.mp h.fresh).2.2 a ha ev (by simp) hadd' hadd hid

theorem AddCancelFeed.later {p : List SequencedEvent} {ev : SequencedEvent}
    (h : AddCancelFeed (p ++ [ev])) {a : SequencedEvent} (ha : a ∈ p) : a.seq < ev.seq :=
  (List.pairwise_append.mp h.ordered).2.2 a ha ev (by simp)

namespace PhantomLiquidityDetector

section

variable {d : PhantomLiquidityDetector} {p : List SequencedEvent} {ev : SequencedEvent}
  {key : LevelKey} {t : LevelTracker} {S : Finset UInt64}

/-- An event that neither adds at `key` nor touches the mappings of its orders leaves the tally. -/
theorem Tally.aside (h : d.Tally p key t S) (hadd : ¬ AddsAt ev key)
    (hmap : ∀ i : UInt64, AddedSince p key t.createdSeq i →
      ((d.process ev).1.orders[i]? = some key ↔ d.orders[i]? = some key)) :
    (d.process ev).1.Tally (p ++ [ev]) key t S where
  mem i := by
    rw [h.mem, addedSince_concat]
    simp only [hadd, false_and, or_false]
    exact and_congr_left fun hsince => (hmap i hsince).symm
  count := h.count

/-- A further add at the level joins the tally. -/
theorem Tally.add (h : d.Tally p key t S) (hfeed : AddCancelFeed (p ++ [ev])) (hadd : AddsAt ev key)
    (hborn : t.createdSeq ≤ ev.seq) (hcount : t.orderCount.toNat + 1 < 2 ^ 32) :
    (d.process ev).1.Tally (p ++ [ev]) key (t.extended ev.event.qty)
      (insert ev.event.orderId S) where
  mem i := by
    have hid := hfeed.named ev (by simp) (by rw [hadd.1]; simp)
    have hkeep : (t.extended ev.event.qty).createdSeq = t.createdSeq := rfl
    rw [Finset.mem_insert, h.mem, process_order, addedSince_concat, hkeep]
    by_cases hi : i = ev.event.orderId
    · simp [hi, hid, remapped, hadd.1, hadd.2, hadd, hborn]
    · simp [hi, Ne.symm hi]
  count := by
    have hnew : ev.event.orderId ∉ S := fun hin => hfeed.unseen hadd.1 key _ ((h.mem _).mp hin).2
    have hone : (1 : UInt32).toNat = 1 := rfl
    have hold := h.count
    rw [Finset.card_insert_of_notMem hnew]
    simp only [LevelTracker.extended, satAdd32_toNat]
    omega

/-- The first add starts a tally. -/
theorem tally_opened (hfeed : AddCancelFeed (p ++ [ev])) (hadd : AddsAt ev key) :
    (d.process ev).1.Tally (p ++ [ev]) key (.opened ev) {ev.event.orderId} where
  mem i := by
    have hid := hfeed.named ev (by simp) (by rw [hadd.1]; simp)
    have hold : ¬ AddedSince p key ev.seq i := by
      rintro ⟨a, ha, _, _, hle⟩
      exact absurd (hfeed.later ha) (UInt64.not_lt.mpr hle)
    have hopen : (LevelTracker.opened ev).createdSeq = ev.seq := rfl
    rw [Finset.mem_singleton, process_order, addedSince_concat, hopen]
    by_cases hi : i = ev.event.orderId
    · simp [hi, hid, remapped, hadd.1, hadd.2, hadd]
    · simp [hi, Ne.symm hi, hold]
  count := rfl

/-- The cancel of an order of the tally takes it out. -/
theorem Tally.cancel (h : d.Tally p key t S) (hcancel : Cancels ev ev.event.orderId)
    (hid : ev.event.orderId ≠ 0) (hin : ev.event.orderId ∈ S) :
    (d.process ev).1.Tally (p ++ [ev]) key (t.charged ev.event.qty)
      (S.erase ev.event.orderId) where
  mem i := by
    have hadd : ¬ AddsAt ev key := by simp [AddsAt, hcancel.1]
    have hkeep : (t.charged ev.event.qty).createdSeq = t.createdSeq := rfl
    rw [Finset.mem_erase, h.mem, process_order, addedSince_concat, hkeep]
    by_cases hi : i = ev.event.orderId
    · simp [hi, hid, remapped, hcancel.1]
    · simp [hi, hadd]
  count := by
    have hpos := Finset.card_pos.mpr ⟨_, hin⟩
    have hone : (1 : UInt32).toNat = 1 := rfl
    have hold := h.count
    have hlt := t.orderCount.toNat_lt
    rw [Finset.card_erase_of_mem hin]
    simp only [LevelTracker.charged, satAdd32_toNat]
    omega

end

/-- As long as cancels are charged to the trackers of their own orders, every tracker has a tally. -/
theorem tally_run {d : PhantomLiquidityDetector} (hnew : ∀ key : LevelKey, d.levels[key]? = none)
    {evs : List SequencedEvent} (hfeed : AddCancelFeed evs) (hown : OwnCancels d evs)
    {key : LevelKey} {t : LevelTracker} (ht : (d.run evs).levels[key]? = some t) :
    ∃ S, (d.run evs).Tally evs key t S := by
  induction evs using List.reverseRecOn generalizing t with
  | nil => exact absurd ((hnew key).symm.trans ht) (by simp)
  | append_singleton evs ev ih =>
    have hpre : evs <+: evs ++ [ev] := List.prefix_append evs [ev]
    have hprev {s : LevelTracker} (hs : (d.run evs).levels[key]? = some s) :=
      ih (hfeed.mono hpre) (hown.mono hpre) hs
    rw [run_concat] at ht ⊢
    rcases hfeed.kinds ev (by simp) with htype | htype | htype
    · simp only [process, htype] at ht
      rcases onAdd_tracked ht with ⟨hlevel, hold⟩ | ⟨hlevel, rfl | ⟨s, hs, rfl⟩⟩
      · obtain ⟨S, hS⟩ := hprev hold
        refine ⟨S, hS.aside (fun h => hlevel h.2) fun i hsince => ?_⟩
        have hi : i ≠ ev.event.orderId := fun h => hfeed.unseen htype key _ (h ▸ hsince)
        rw [process_order, if_neg (fun h => hi h.2)]
      · exact ⟨_, tally_opened hfeed ⟨htype, hlevel⟩⟩
      · obtain ⟨S, hS⟩ := hprev hs
        obtain ⟨q, c, m, rfl, _, hc⟩ := lives_of_tracked hnew hs
        have hborn : s.createdSeq ≤ ev.seq := by
          rw [← hc]
          exact UInt64.le_of_lt (hfeed.later (by simp))
        exact ⟨_, hS.add hfeed ⟨htype, hlevel⟩ hborn
          (hown.counted _ ev key s List.prefix_rfl ⟨htype, hlevel⟩ hs)⟩
    · have hid := hfeed.named ev (by simp) (by rw [htype]; simp)
      simp only [process, htype] at ht
      rcases onCancel_tracked ht with ⟨htarget, hold⟩ | ⟨htarget, s, hs, rfl⟩
      · obtain ⟨S, hS⟩ := hprev hold
        refine ⟨S, hS.aside (by simp [AddsAt, htype]) fun i _ => ?_⟩
        rw [target, if_pos hid] at htarget
        rw [process_order]
        by_cases hi : i = ev.event.orderId
        · simp [hi, hid, remapped, htype, htarget]
        · simp [hi]
      · obtain ⟨S, hS⟩ := hprev hs
        have hsince := hown.own evs ev key s List.prefix_rfl ⟨htype, rfl⟩ htarget hs
        rw [target, if_pos hid] at htarget
        exact ⟨_, hS.cancel ⟨htype, rfl⟩ hid ((hS.mem _).mpr ⟨htarget, hsince⟩)⟩
    · simp only [process, htype] at ht
      rw [onTrade_level] at ht
      split_ifs at ht
      obtain ⟨S, hS⟩ := hprev ht
      refine ⟨S, hS.aside (by simp [AddsAt, htype]) fun i _ => ?_⟩
      simp [process, htype, onTrade]

/-- An order that has been added is mapped to its level until it is cancelled. -/
theorem mapped_or_cancelled (d : PhantomLiquidityDetector) {q m : List SequencedEvent}
    {a : SequencedEvent} (hfeed : AddCancelFeed (q ++ a :: m)) {key : LevelKey} (hadd : AddsAt a key) :
    (d.run (q ++ a :: m)).orders[a.event.orderId]? = some key ∨
      ∃ c ∈ m, Cancels c a.event.orderId := by
  induction m using List.reverseRecOn with
  | nil =>
    have hid := hfeed.named a (by simp) (by rw [hadd.1]; simp)
    rw [run_concat, process_order]
    simp [hid, remapped, hadd.1, hadd.2]
  | append_singleton m e ih =>
    rw [← List.cons_append, ← List.append_assoc] at hfeed ⊢
    have hfresh := (List.pairwise_append.mp hfeed.fresh).2.2 a (by simp) e (by simp) hadd.1
    rcases ih (hfeed.mono (List.prefix_append _ [e])) with hmap | ⟨c, hc, hcancel⟩
    · rw [run_concat, process_order]
      by_cases he : a.event.orderId = e.event.orderId
      · rcases hfeed.kinds e (by simp) with htype | htype | htype
        · exact absurd he (hfresh htype)
        · exact Or.inr ⟨e, by simp, htype, he.symm⟩
        · left
          simp [remapped, htype, hmap]
      · left
        simp [he, hmap]
    · exact Or.inr ⟨c, by simp [hc], hcancel⟩

end PhantomLiquidityDetector

/-- Whenever a flag is emitted, every order added at its level from its start on has been cancelled,
as long as every cancel charged to a tracker is of an order added there since the tracker was opened,
and the orders of a level are not too many for their count. -/
theorem flagged_level_emptied (maxSeqGap maxTimeGapNs : UInt64) (maxTracked : Nat) (minQty : UInt64)
    (hashOrder : HashOrder) {evs : List SequencedEvent} (hfeed : AddCancelFeed evs)
    (hown : OwnCancels (.new maxSeqGap maxTimeGapNs maxTracked minQty hashOrder) evs)
    {p : List SequencedEvent} {ev : SequencedEvent} {key : LevelKey} {f : ChaosEvent}
    (hp : p ++ [ev] <+: evs)
    (hkey : ((PhantomLiquidityDetector.new maxSeqGap maxTimeGapNs maxTracked minQty hashOrder).run
      p).target ev.event = some key)
    (hf : (((PhantomLiquidityDetector.new maxSeqGap maxTimeGapNs maxTracked minQty hashOrder).run
      p).process ev).2 = some f) :
    ∀ q a m, p = q ++ a :: m → AddsAt a key → f.startSeq ≤ a.seq →
      ∃ c ∈ m ++ [ev], Cancels c a.event.orderId := by
  intro q a m hq hadd hstart
  obtain ⟨htype, key', t, hkey', ht, hfull, hopened, _⟩ := PhantomLiquidityDetector.process_flag hf
  obtain rfl : key' = key := Option.some.inj (hkey'.symm.trans hkey)
  have hpre := (List.prefix_append p [ev]).trans hp
  have hmem : ev ∈ evs := hp.subset (by simp)
  have hcancel : EventType.fromU8 ev.event.eventType = some .orderCancel := by
    rcases hfeed.kinds ev hmem with h | h | h <;> simp [h] at htype ⊢
  have hid := hfeed.named ev hmem (by rw [hcancel]; simp)
  obtain ⟨S, hS⟩ := PhantomLiquidityDetector.tally_run
    (fun key => by simp [PhantomLiquidityDetector.new]) (hfeed.mono hpre) (hown.mono hpre) ht
  have hlast : ev.event.orderId ∈ S := by
    have hsince := hown.own p ev key' t hp ⟨hcancel, rfl⟩ hkey ht
    rw [PhantomLiquidityDetector.target, if_pos hid] at hkey
    exact (hS.mem _).mpr ⟨hkey, hsince⟩
  -- the last cancel completes the count, so it takes the last order of the tally
  have hone : S.card ≤ 1 := by
    simp only [LevelTracker.fullyCancelled, LevelTracker.charged, Bool.and_eq_true] at hfull
    have hcount := UInt32.le_iff_toNat_le.mp (of_decide_eq_true hfull.2)
    have hsum := hS.count
    have hunit : (1 : UInt32).toNat = 1 := rfl
    rw [satAdd32_toNat] at hcount
    omega
  by_cases ha : a.event.orderId = ev.event.orderId
  · exact ⟨ev, by simp, hcancel, ha.symm⟩
  · have hout : a.event.orderId ∉ S := fun hin => ha (Finset.card_le_one.mp hone _ hin _ hlast)
    subst hq
    rcases PhantomLiquidityDetector.mapped_or_cancelled (.new maxSeqGap maxTimeGapNs maxTracked
      minQty hashOrder) (hfeed.mono hpre) hadd with hmap | ⟨c, hc, hcan⟩
    · exact absurd ((hS.mem _).mpr ⟨hmap, a, by simp, hadd, rfl, hopened ▸ hstart⟩) hout
    · exact ⟨c, by simp [hc], hcan⟩

/-- Two orders at one level, both cancelled. -/
def addedAndCancelled : List SequencedEvent :=
  [⟨1, 0, ⟨1, 100, 10, 1, 1, 1, 0⟩, 0, 0⟩, ⟨2, 0, ⟨2, 100, 10, 2, 1, 1, 0⟩, 0, 0⟩,
    ⟨3, 0, ⟨3, 0, 10, 2, 1, 2, 0⟩, 0, 0⟩, ⟨4, 0, ⟨4, 0, 10, 1, 1, 2, 0⟩, 0, 0⟩]

theorem flagged_level_emptied_two :
    ∃ f, (((PhantomLiquidityDetector.new 100 0 64 1 .byLevel).run (addedAndCancelled.take 3)).process
        ⟨4, 0, ⟨4, 0, 10, 1, 1, 2, 0⟩, 0, 0⟩).2 = some f ∧
      ∀ q a m, addedAndCancelled.take 3 = q ++ a :: m → AddsAt a ⟨0, 100⟩ → f.startSeq ≤ a.seq →
        ∃ c ∈ m ++ [⟨4, 0, ⟨4, 0, 10, 1, 1, 2, 0⟩, 0, 0⟩], Cancels c a.event.orderId := by
  have hflag : (((PhantomLiquidityDetector.new 100 0 64 1 .byLevel).run
      (addedAndCancelled.take 3)).process ⟨4, 0, ⟨4, 0, 10, 1, 1, 2, 0⟩, 0, 0⟩).2.isSome = true := by
    decide
  obtain ⟨f, hf⟩ := Option.isSome_iff_exists.mp hflag
  have hfeed : AddCancelFeed addedAndCancelled := ⟨by decide, by decide, by decide, by decide⟩
  refine ⟨f, hf, flagged_level_emptied 100 0 64 1 .byLevel hfeed ⟨?_, ?_⟩ List.prefix_rfl
    (by decide) hf⟩
  · intro p ev key t hp hcancel hkey ht
    refine steps_of_get (P := fun p ev => EventType.fromU8 ev.event.eventType = some .orderCancel →
      ∀ key ∈ ((PhantomLiquidityDetector.new 100 0 64 1 .byLevel).run p).target ev.event,
      ∀ t ∈ ((PhantomLiquidityDetector.new 100 0 64 1 .byLevel).run p).levels[key]?,
        AddedSince p key t.createdSeq ev.event.orderId) ?_ hp hcancel.1 key hkey t ht
    decide
  · intro p ev key t hp hadd ht
    refine steps_of_get (P := fun p ev =>
      ∀ t ∈ ((PhantomLiquidityDetector.new 100 0 64 1 .byLevel).run p).levels[levelOf ev.event]?,
        t.orderCount.toNat + 1 < 2 ^ 32) ?_ hp t (by rw [hadd.2]; exact ht)
    decide

/-- The level of order 1 trades, and order 2 opens it anew; then order 1 is deleted. -/
def reopenedLevel : List SequencedEvent :=
  [⟨1, 0, ⟨1, 100, 10, 1, 1, 1, 0⟩, 0, 0⟩, ⟨2, 0, ⟨2, 100, 4, 1, 1, 4, 0⟩, 0, 0⟩,
    ⟨3, 0, ⟨3, 100, 10, 2, 1, 1, 0⟩, 0, 0⟩, ⟨4, 0, ⟨4, 0, 0, 1, 1, 2, 0⟩, 0, 0⟩]

/-- The delete is charged to the new tracker and flags the level, although order 2 rests there. -/
theorem flag_on_resting_order :
    ∃ f, AddCancelFeed reopenedLevel ∧
      (((PhantomLiquidityDetector.new 100 0 64 1 .byLevel).run (reopenedLevel.take 3)).process
        ⟨4, 0, ⟨4, 0, 0, 1, 1, 2, 0⟩, 0, 0⟩).2 = some f ∧
      ((PhantomLiquidityDetector.new 100 0 64 1 .byLevel).run (reopenedLevel.take 3)).target
        ⟨4, 0, 0, 1, 1, 2, 0⟩ = some ⟨0, 100⟩ ∧
      ¬ ∀ q a m, reopenedLevel.take 3 = q ++ a :: m → AddsAt a ⟨0, 100⟩ → f.startSeq ≤ a.seq →
        ∃ c ∈ m ++ [⟨4, 0, ⟨4, 0, 0, 1, 1, 2, 0⟩, 0, 0⟩], Cancels c a.event.orderId := by
  have hflag : ((((PhantomLiquidityDetector.new 100 0 64 1 .byLevel).run
      (reopenedLevel.take 3)).process ⟨4, 0, ⟨4, 0, 0, 1, 1, 2, 0⟩, 0, 0⟩).2.map
        ChaosEvent.startSeq) = some 3 := by decide
  obtain ⟨f, hf, hstart⟩ := Option.map_eq_some_iff.mp hflag
  refine ⟨f, ⟨by decide, by decide, by decide, by decide⟩, hf, by decide, fun h => ?_⟩
  have hcancelled := h (reopenedLevel.take 2) ⟨3, 0, ⟨3, 100, 10, 2, 1, 1, 0⟩, 0, 0⟩ [] rfl
    (by decide) (by rw [hstart]; decide)
  revert hcancelled
  decide

end Flowlab.Chaos
