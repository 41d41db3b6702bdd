import Flowlab.Chaos.PhantomLiquidity
import Flowlab.Chaos.ShadowRun
import Flowlab.Replay.Itch

namespace Flowlab.Chaos

open Std Framework Framework.Machine
open Flowlab.Core (Event EventType Order OrderBook SequencedEvent)
open Flowlab.Replay.Itch (parseOrderExecuted parseOrderExecuted_window window_getD)

namespace PhantomLiquidityDetector

/-- A level that is tracked after an event was tracked before it since the same add, or the event
places an order there. -/
theorem process_tracked {d : PhantomLiquidityDetector} {ev : SequencedEvent} {key : LevelKey}
    {t : LevelTracker} (h : (d.process ev).1.levels[key]? = some t) :
    (∃ s, d.levels[key]? = some s ∧ s.createdSeq = t.createdSeq) ∨
      (OrderBook.Places ev.event ∧ levelOf ev.event = key ∧ ev.seq = t.createdSeq) := by
  have hadd {d : PhantomLiquidityDetector} (h : (d.onAdd ev).levels[key]? = some t) :
      (∃ s, d.levels[key]? = some s ∧ s.createdSeq = t.createdSeq) ∨
        (levelOf ev.event = key ∧ ev.seq = t.createdSeq) := by
    rcases onAdd_tracked h with ⟨_, hold⟩ | ⟨hkey, rfl | ⟨s, hold, rfl⟩⟩
    · exact Or.inl ⟨t, hold, rfl⟩
    · exact Or.inr ⟨hkey, rfl⟩
    · exact Or.inl ⟨s, hold, rfl⟩
  have hcancel {t : LevelTracker} (h : (d.onCancel ev).1.levels[key]? = some t) :
      ∃ s, d.levels[key]? = some s ∧ s.createdSeq = t.createdSeq := by
    rcases onCancel_tracked h with ⟨_, hold⟩ | ⟨_, s, hold, rfl⟩
    · exact ⟨t, hold, rfl⟩
    · exact ⟨s, hold, rfl⟩
  simp only [process] at h
  simp only [OrderBook.Places]
  cases htype : EventType.fromU8 ev.event.eventType with
  | none => exact Or.inl ⟨t, by simpa [htype] using h, rfl⟩
  | some etype =>
    rw [htype] at h
    cases etype with
    | orderAdd => exact (hadd h).imp_right fun hplace => ⟨Or.inl rfl, hplace⟩
    | orderCancel => exact Or.inl (hcancel h)
    | orderModify =>
      rcases hadd h with ⟨s, hs, hseq⟩ | hplace
      · obtain ⟨r, hr, hseq'⟩ := hcancel hs
        exact Or.inl ⟨r, hr, hseq'.trans hseq⟩
      · exact Or.inr ⟨Or.inr rfl, hplace⟩
    | trade =>
      rw [onTrade_level] at h
      split_ifs at h
      exact Or.inl ⟨t, h, rfl⟩
    | bookSnapshot => exact Or.inl ⟨t, h, rfl⟩

/-- What an executed message without a price becomes: a trade that names no level of its own. -/
theorem levelOf_executed {m : List UInt8} {e : Event} (hprice : Char.ofNat (m.getD 0 0).toNat ≠ 'C')
    (h : parseOrderExecuted m = .ok (some e)) :
    EventType.fromU8 e.eventType = some .trade ∧ levelOf e = ⟨0, 0⟩ := by
  by_cases hlen : m.length < 31
  · rw [parseOrderExecuted, if_pos hlen] at h
    exact absurd h (by simp [pure, Except.pure])
  · rw [← window_getD m, parseOrderExecuted_window _ (by omega)] at h
    rw [← Option.some.inj (Except.ok.inj h)]
    refine ⟨rfl, ?_⟩
    rw [levelOf, if_neg (fun hc => hprice hc.1)]

/-- A trade ends the candidate at the level that it names. -/
theorem process_trade_level {d : PhantomLiquidityDetector} {ev : SequencedEvent}
    (h : EventType.fromU8 ev.event.eventType = some .trade) :
    (d.process ev).1.levels[levelOf ev.event]? = none := by
  simp only [process, h]
  rw [onTrade_level, if_pos rfl]

/-- So an execution by order number leaves every candidate but one at price 0. -/
theorem process_executed {d : PhantomLiquidityDetector} {m : List UInt8} {ev : SequencedEvent}
    (hprice : Char.ofNat (m.getD 0 0).toNat ≠ 'C')
    (h : parseOrderExecuted m = .ok (some ev.event)) {key : LevelKey} (hkey : key ≠ ⟨0, 0⟩) :
    (d.process ev).1.levels[key]? = d.levels[key]? := by
  obtain ⟨htrade, hlevel⟩ := levelOf_executed hprice h
  simp only [process, htrade]
  rw [onTrade_level, hlevel, if_neg hkey]

/-- The candidate at `key` was opened by `c` after `q` and has lived through `m`. -/
structure Lives (d : PhantomLiquidityDetector) (q : List SequencedEvent) (c : SequencedEvent)
    (m : List SequencedEvent) (key : LevelKey) : Prop where
  places : OrderBook.Places c.event
  level : levelOf c.event = key
  tracked : ∀ m', m' <+: m → ∃ t, (d.run (q ++ c :: m')).levels[key]? = some t ∧
    t.createdSeq = c.seq

theorem lives_of_tracked {d : PhantomLiquidityDetector} (hnew : ∀ key : LevelKey, d.levels[key]? = none)
    {p : List SequencedEvent} {key : LevelKey} {t : LevelTracker}
    (h : (d.run p).levels[key]? = some t) :
    ∃ q c m, p = q ++ c :: m ∧ d.Lives q c m key ∧ c.seq = t.createdSeq := by
  induction p using List.reverseRecOn generalizing t with
  | nil => exact absurd ((hnew key).symm.trans h) (by simp)
  | append_singleton p ev ih =>
    have hlast := h
    rw [run_concat] at h
    rcases process_tracked h with ⟨s, hs, hseq⟩ | ⟨hplaces, hlevel, hseq⟩
    · obtain ⟨q, c, m, rfl, hlives, hc⟩ := ih hs
      refine ⟨q, c, m ++ [ev], by simp, ⟨hlives.places, hlives.level, ?_⟩, hc.trans hseq⟩
      intro m' hm'
      rcases List.prefix_concat_iff.mp hm' with rfl | hm'
      · exact ⟨t, by simpa using hlast, (hc.trans hseq).symm⟩
      · exact hlives.tracked m' hm'
    · refine ⟨p, ev, [], rfl, ⟨hplaces, hlevel, ?_⟩, hseq⟩
      intro m' hm'
      rw [List.prefix_nil.mp hm']
      exact ⟨t, hlast, hseq.symm⟩

/-- No trade names the level of a living candidate. -/
theorem Lives.unnamed {d : PhantomLiquidityDetector} {q m : List SequencedEvent}
    {c : SequencedEvent} {key : LevelKey} (h : d.Lives q c m key) {m' : List SequencedEvent}
    {e : SequencedEvent} (he : m' ++ [e] <+: m)
    (htrade : EventType.fromU8 e.event.eventType = some .trade) : levelOf e.event ≠ key := by
  intro hlevel
  obtain ⟨t, ht, _⟩ := h.tracked (m' ++ [e]) he
  have hgone := process_trade_level (d := d.run (q ++ c :: m')) htrade
  rw [← run_concat, hlevel, List.append_assoc, List.cons_append, ht] at hgone
  exact absurd hgone (by simp)

end PhantomLiquidityDetector

/-- The level at which an order rests. -/
def orderLevel (o : Order) : LevelKey := ⟨o.side.toU8, o.price⟩

/-- The level whose liquidity a trade executes: that of the order that it names, whatever side and
price the event carries, and the event's own when it names none. -/
def executedLevel (b : OrderBook) (e : Event) : Option LevelKey :=
  match EventType.fromU8 e.eventType with
  | some .trade =>
    if e.orderId ≠ 0 then b.orders[e.orderId]?.map orderLevel else some (levelOf e)
  | _ => none

theorem executedLevel_trade {b : OrderBook} {e : Event} {key : LevelKey}
    (h : executedLevel b e = some key) : EventType.fromU8 e.eventType = some .trade := by
  simp only [executedLevel] at h
  split at h
  · assumption
  · exact absurd h (by simp)

/-- Every trade that executes an order at a tracked level carries that level's side and price. -/
def TradesNamed (d : PhantomLiquidityDetector) (instrumentId : UInt32)
    (evs : List SequencedEvent) : Prop :=
  ∀ p ev key, p ++ [ev] <+: evs → executedLevel (reference instrumentId p) ev.event = some key →
    (d.run p).levels[key]? ≠ none → levelOf ev.event = key

namespace PhantomLiquidityDetector

/-- As long as trades name the levels they execute at, none executes at a living candidate. -/
theorem Lives.untraded {d : PhantomLiquidityDetector} {instrumentId : UInt32}
    {evs q m : List SequencedEvent} {c : SequencedEvent} {key : LevelKey}
    (h : d.Lives q c m key) (hnamed : TradesNamed d instrumentId evs) (hevs : q ++ c :: m <+: evs)
    {m' : List SequencedEvent} {e : SequencedEvent} (he : m' ++ [e] <+: m) :
    executedLevel (reference instrumentId (q ++ c :: m')) e.event ≠ some key := by
  intro hexec
  have hpos : q ++ c :: m' ++ [e] <+: evs := by
    refine List.IsPrefix.trans ?_ hevs
    rw [List.append_assoc, List.cons_append]
    exact (List.prefix_append_right_inj q).mpr ((List.prefix_cons_inj c).mpr he)
  obtain ⟨t, ht, _⟩ := h.tracked m' ((List.prefix_append m' [e]).trans he)
  have hlevel := hnamed _ e key hpos hexec (by rw [ht]; simp)
  exact h.unnamed he (executedLevel_trade hexec) hlevel

end PhantomLiquidityDetector

/-- A flag spans the life of a candidate at its level, from the add that opened it to the cancel that
completed it. When every trade at a tracked level names that level, no trade in between executes
there, and so none whose number lies in the span does where numbers increase. -/
theorem traded_level_not_flagged (maxSeqGap maxTimeGapNs : UInt64) (maxTracked : Nat)
    (minQty : UInt64) (hashOrder : HashOrder) (instrumentId : UInt32) (evs : List SequencedEvent)
    (hnamed : TradesNamed (.new maxSeqGap maxTimeGapNs maxTracked minQty hashOrder) instrumentId evs)
    {p : List SequencedEvent} {ev : SequencedEvent} {key : LevelKey} {f : ChaosEvent}
    (hp : p ++ [ev] <+: evs)
    (hkey : ((PhantomLiquidityDetector.new maxSeqGap maxTimeGapNs maxTracked minQty hashOrder).run
      p).target ev.event = some key)
    (hf : (((PhantomLiquidityDetector.new maxSeqGap maxTimeGapNs maxTracked minQty hashOrder).run
      p).process ev).2 = some f) :
    (∃ q c m, p = q ++ c :: m ∧ OrderBook.Places c.event ∧ levelOf c.event = key ∧
      c.seq = f.startSeq ∧ ev.seq = f.endSeq ∧ ∀ m' e, m' ++ [e] <+: m →
        executedLevel (reference instrumentId (q ++ c :: m')) e.event ≠ some key) ∧
    (evs.Pairwise (fun a b => a.seq < b.seq) → ∀ p' e, p' ++ [e] <+: evs →
      f.startSeq ≤ e.seq → e.seq ≤ f.endSeq →
      executedLevel (reference instrumentId p') e.event ≠ some key) := by
  obtain ⟨htype, key', t, hkey', ht, _, hstart, hend⟩ := PhantomLiquidityDetector.process_flag hf
  obtain rfl : key' = key := Option.some.inj (hkey'.symm.trans hkey)
  obtain ⟨q, c, m, rfl, hlives, hc⟩ := PhantomLiquidityDetector.lives_of_tracked
    (fun key => by simp [PhantomLiquidityDetector.new]) ht
  have hpre : q ++ c :: m <+: evs := (List.prefix_append _ [ev]).trans hp
  have huntraded {m' : List SequencedEvent} {e : SequencedEvent} (he : m' ++ [e] <+: m) :=
    hlives.untraded hnamed hpre he
  refine ⟨⟨q, c, m, rfl, hlives.places, hlives.level, hc.trans hstart.symm, hend.symm,
    fun m' e he => huntraded he⟩, ?_⟩
  intro hseq p' e he hlow hhigh hexec
  have htrade := executedLevel_trade hexec
  -- the trade stands behind `c` and before `ev`, and is neither of them
  have hq : q ++ [c] <+: evs := List.IsPrefix.trans (by simp) hpre
  have hafter : q <+: p' := prefix_of_not_before hseq hq he
    (by rw [UInt64.not_lt, hc, ← hstart]; exact hlow)
  have hbefore : p' <+: q ++ c :: m := prefix_of_not_before hseq he hp
    (by rw [UInt64.not_lt, ← hend]; exact hhigh)
  obtain ⟨r, rfl⟩ := hafter
  have hr : r <+: c :: m := (List.prefix_append_right_inj q).mp hbefore
  cases r with
  | nil =>
    rw [List.append_nil] at he
    rw [next_unique he hq] at htrade
    have hplaces := hlives.places
    simp [OrderBook.Places, htrade] at hplaces
  | cons b m' =>
    obtain ⟨rfl, r, rfl⟩ := List.cons_prefix_cons.mp hr
    cases r with
    | nil =>
      rw [List.append_nil] at hp
      rw [next_unique he hp] at htrade
      simp [htrade] at htype
    | cons x r =>
      have hx : q ++ b :: m' ++ [x] <+: evs := List.IsPrefix.trans (by simp) hpre
      rw [next_unique he hx] at hexec
      exact huntraded (by simp) hexec

/-- A bid that is added and deleted while an ask trades under its own side and price. -/
def askTraded : List SequencedEvent :=
  [⟨1, 0, ⟨1, 100, 10, 1, 1, 1, 0⟩, 0, 0⟩, ⟨2, 0, ⟨2, 101, 10, 2, 1, 1, 1⟩, 0, 0⟩,
    ⟨3, 0, ⟨3, 101, 4, 2, 1, 4, 1⟩, 0, 0⟩, ⟨4, 0, ⟨4, 0, 0, 1, 1, 2, 0⟩, 0, 0⟩]

theorem traded_level_not_flagged_four :
    ∃ f, (((PhantomLiquidityDetector.new 100 0 64 1 .byLevel).run (askTraded.take 3)).process
        ⟨4, 0, ⟨4, 0, 0, 1, 1, 2, 0⟩, 0, 0⟩).2 = some f ∧
      ∀ p e, p ++ [e] <+: askTraded → f.startSeq ≤ e.seq → e.seq ≤ f.endSeq →
        executedLevel (reference 1 p) e.event ≠ some ⟨0, 100⟩ := by
  have hflag : (((PhantomLiquidityDetector.new 100 0 64 1 .byLevel).run (askTraded.take 3)).process
      ⟨4, 0, ⟨4, 0, 0, 1, 1, 2, 0⟩, 0, 0⟩).2.isSome = true := by decide
  obtain ⟨f, hf⟩ := Option.isSome_iff_exists.mp hflag
  have hnamed : TradesNamed (.new 100 0 64 1 .byLevel) 1 askTraded := by
    intro p ev key hp hexec _
    have hown : executedLevel (reference 1 p) ev.event = none ∨
        executedLevel (reference 1 p) ev.event = some (levelOf ev.event) := by
      refine steps_of_get (P := fun p ev => executedLevel (reference 1 p) ev.event = none ∨
        executedLevel (reference 1 p) ev.event = some (levelOf ev.event)) ?_ hp
      decide
    rcases hown with hnone | hown
    · exact absurd (hnone.symm.trans hexec) (by simp)
    · exact Option.some.inj (hown.symm.trans hexec)
  exact ⟨f, hf, (traded_level_not_flagged 100 0 64 1 .byLevel 1 askTraded hnamed List.prefix_rfl
    (by decide) hf).2 (by decide)⟩

/-- An executed message for 4 shares of order 1. -/
def executedMessage : List UInt8 :=
  [69, 0, 1, 0, 0, 0, 0, 0, 0, 0, 2, 0, 0, 0, 0, 0, 0, 0, 1, 0, 0, 0, 4, 0, 0, 0, 0, 0, 0, 0, 9]

/-- Order 1 is added, executed in part by such a message and deleted: its level is flagged, although
the execution lies in the span of the flag. -/
theorem flag_on_executed_level :
    ∃ e f, parseOrderExecuted executedMessage = .ok (some e) ∧
      (((PhantomLiquidityDetector.new 100 0 64 1 .byLevel).run
        [⟨1, 0, ⟨1, 100, 10, 1, 1, 1, 0⟩, 0, 0⟩, ⟨2, 0, e, 0, 0⟩]).process
          ⟨3, 0, ⟨3, 0, 0, 1, 1, 2, 0⟩, 0, 0⟩).2 = some f ∧
      ((PhantomLiquidityDetector.new 100 0 64 1 .byLevel).run
        [⟨1, 0, ⟨1, 100, 10, 1, 1, 1, 0⟩, 0, 0⟩, ⟨2, 0, e, 0, 0⟩]).target ⟨3, 0, 0, 1, 1, 2, 0⟩ =
          some ⟨0, 100⟩ ∧
      ¬ ∀ p ev, p ++ [ev] <+: [⟨1, 0, ⟨1, 100, 10, 1, 1, 1, 0⟩, 0, 0⟩, ⟨2, 0, e, 0, 0⟩,
          ⟨3, 0, ⟨3, 0, 0, 1, 1, 2, 0⟩, 0, 0⟩] → f.startSeq ≤ ev.seq → ev.seq ≤ f.endSeq →
        executedLevel (reference 1 p) ev.event ≠ some ⟨0, 100⟩ := by
  have hspan : ((((PhantomLiquidityDetector.new 100 0 64 1 .byLevel).run
      [⟨1, 0, ⟨1, 100, 10, 1, 1, 1, 0⟩, 0, 0⟩, ⟨2, 0, ⟨2, 0, 4, 1, 1, 4, 0⟩, 0, 0⟩]).process
        ⟨3, 0, ⟨3, 0, 0, 1, 1, 2, 0⟩, 0, 0⟩).2.map fun f => (f.startSeq, f.endSeq)) =
          some (1, 3) := by decide
  obtain ⟨f, hf, hends⟩ := Option.map_eq_some_iff.mp hspan
  obtain ⟨hstart, hend⟩ := Prod.mk.inj hends
  refine ⟨⟨2, 0, 4, 1, 1, 4, 0⟩, f, rfl, hf, by decide, fun h => ?_⟩
  refine h [⟨1, 0, ⟨1, 100, 10, 1, 1, 1, 0⟩, 0, 0⟩] ⟨2, 0, ⟨2, 0, 4, 1, 1, 4, 0⟩, 0, 0⟩ (by decide)
    ?_ ?_ (by decide)
  · rw [hstart]
    decide
  · rw [hend]
    decide

end Flowlab.Chaos
