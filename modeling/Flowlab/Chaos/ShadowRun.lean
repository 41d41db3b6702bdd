import Flowlab.Chaos.FlashCrash
import Flowlab.Chaos.LatencyArbProxy
import Flowlab.Chaos.MomentumIgnition
import Flowlab.Chaos.ShadowStep
import Flowlab.Framework.Machine

namespace Flowlab.Chaos

open Std Framework
open Flowlab.Core (Event EventType Level OrderBook SequencedEvent)

namespace MiniBook

def run (m : MiniBook) (evs : List SequencedEvent) : MiniBook :=
  evs.foldl (fun m ev => m.apply ev.event) m

theorem run_cap (m : MiniBook) (evs : List SequencedEvent) :
    (m.run evs).maxBookLevels = m.maxBookLevels := by
  induction evs using List.reverseRecOn with
  | nil => rfl
  | append_singleton evs ev ih =>
    rw [run, List.foldl_append]
    exact (apply_cap _ ev.event).trans ih

end MiniBook

/-- The reference book after a stream. -/
def reference (instrumentId : UInt32) (evs : List SequencedEvent) : OrderBook :=
  (OrderBook.new instrumentId).run (evs.map SequencedEvent.event)

theorem reference_append (instrumentId : UInt32) (evs : List SequencedEvent) (ev : SequencedEvent) :
    reference instrumentId (evs ++ [ev]) = ((reference instrumentId evs).apply ev.event).1 := by
  simp only [reference, OrderBook.run, List.map_append, List.foldl_append]
  rfl

/-- Regular events, adds of ids that are not live, and never more than `cap` prices on a side. -/
structure Feed (instrumentId : UInt32) (cap : Nat) (evs : List SequencedEvent) : Prop where
  regular : ∀ ev ∈ evs, Regular ev.event
  fresh : ∀ p ev, p ++ [ev] <+: evs → EventType.fromU8 ev.event.eventType = some .orderAdd →
    (reference instrumentId p).orders[ev.event.orderId]? = none
  room : ∀ p, p <+: evs → ∀ s, ((reference instrumentId p).levels s).size ≤ cap

theorem Feed.mono {instrumentId : UInt32} {cap : Nat} {p evs : List SequencedEvent}
    (h : Feed instrumentId cap evs) (hp : p <+: evs) : Feed instrumentId cap p where
  regular ev hev := h.regular ev (hp.subset hev)
  fresh q ev hq := h.fresh q ev (hq.trans hp)
  room q hq := h.room q (hq.trans hp)

/-- `P` of the reference book and the next event, all along a stream. -/
def Throughout (P : OrderBook → Event → Prop) (instrumentId : UInt32) (evs : List SequencedEvent) :
    Prop :=
  ∀ p ev, p ++ [ev] <+: evs → P (reference instrumentId p) ev.event

section

variable {instrumentId : UInt32} {cap : Nat} {evs : List SequencedEvent} {m : MiniBook}

theorem MiniBook.run_shadows (hfeed : Feed instrumentId cap evs) (hm : m = .new m.maxBookLevels)
    (hcap : cap ≤ m.maxBookLevels) (hfit : Throughout Fits instrumentId evs)
    (hres : Throughout Resolves instrumentId evs) :
    (m.run evs).Shadows (reference instrumentId evs) := by
  induction evs using List.reverseRecOn with
  | nil =>
    rw [hm]
    exact shadows_new _ instrumentId
  | append_singleton evs ev ih =>
    have hpre : evs <+: evs ++ [ev] := List.prefix_append evs [ev]
    have hprev := ih (hfeed.mono hpre) (fun p e hp => hfit p e (hp.trans hpre))
      (fun p e hp => hres p e (hp.trans hpre))
    rw [reference_append, run, List.foldl_append]
    refine hprev.apply (hfeed.regular ev (by simp)) (hfeed.fresh evs ev List.prefix_rfl)
      (hfit evs ev List.prefix_rfl) ?_ (hres evs ev List.prefix_rfl)
    intro s
    rw [run_cap, ← reference_append]
    exact (hfeed.room (evs ++ [ev]) List.prefix_rfl s).trans hcap

theorem MiniBook.run_agrees (hfeed : Feed instrumentId cap evs) (hm : m = .new m.maxBookLevels)
    (hcap : cap ≤ m.maxBookLevels) (hfit : Throughout Fits instrumentId evs)
    (hres : Throughout Resolves instrumentId evs) {p : List SequencedEvent} (hp : p <+: evs) :
    (m.run p).Agrees (reference instrumentId p) :=
  (run_shadows (hfeed.mono hp) hm hcap (fun q e hq => hfit q e (hq.trans hp))
    (fun q e hq => hres q e (hq.trans hp))).agrees

/-- As long as the book agrees, every event has resolved. -/
theorem MiniBook.resolves_of_agrees (hfeed : Feed instrumentId cap evs)
    (hm : m = .new m.maxBookLevels) (hcap : cap ≤ m.maxBookLevels)
    (hfit : Throughout Fits instrumentId evs)
    (hagree : ∀ p, p <+: evs → (m.run p).Agrees (reference instrumentId p)) :
    Throughout Resolves instrumentId evs := by
  induction evs using List.reverseRecOn with
  | nil =>
    intro p ev hp
    exact absurd (List.prefix_nil.mp hp) (by simp)
  | append_singleton evs ev ih =>
    have hpre : evs <+: evs ++ [ev] := List.prefix_append evs [ev]
    have hfit' : Throughout Fits instrumentId evs := fun p e hp => hfit p e (hp.trans hpre)
    have hprev := ih (hfeed.mono hpre) hfit' (fun p hp => hagree p (hp.trans hpre))
    intro p e hp
    rcases List.prefix_concat_iff.mp hp with heq | hlt
    · obtain ⟨rfl, he⟩ := List.append_inj' heq rfl
      rw [(List.cons.inj he).1]
      by_contra hno
      have hshadow := run_shadows (hfeed.mono hpre) hm hcap hfit' hprev
      refine hshadow.apply_parts (hfeed.regular ev (by simp)) hno ?_
      have hlast := hagree (p ++ [ev]) List.prefix_rfl
      rw [reference_append, run, List.foldl_append] at hlast
      exact hlast
    · exact hprev p e hlt

end

theorem MomentumIgnitionDetector.run_book (d : MomentumIgnitionDetector)
    (evs : List SequencedEvent) : (d.run evs).toMiniBook = d.toMiniBook.run evs :=
  (List.foldl_hom toMiniBook (fun d ev => (process_book d ev).symm)).symm

theorem FlashCrashDetector.run_book (d : FlashCrashDetector) (evs : List SequencedEvent) :
    (d.run evs).toMiniBook = d.toMiniBook.run evs :=
  (List.foldl_hom toMiniBook (fun d ev => (process_book d ev).symm)).symm

theorem LatencyArbProxyDetector.run_book (d : LatencyArbProxyDetector)
    (evs : List SequencedEvent) : (d.run evs).toMiniBook = d.toMiniBook.run evs :=
  (List.foldl_hom toMiniBook (fun d ev => (process_book d ev).symm)).symm

/-- The three detectors with a book of their own, as `new` leaves them. -/
structure Shadowing where
  ignition : MomentumIgnitionDetector
  crash : FlashCrashDetector
  proxy : LatencyArbProxyDetector
  ignition_new : ignition.toMiniBook = .new ignition.maxBookLevels
  crash_new : crash.toMiniBook = .new crash.maxBookLevels
  proxy_new : proxy.toMiniBook = .new proxy.maxBookLevels

namespace Shadowing

def cap (d : Shadowing) : Nat :=
  min d.ignition.maxBookLevels (min d.crash.maxBookLevels d.proxy.maxBookLevels)

/-- After the stream the book of each detector has the quantities of the reference book. -/
def Agree (d : Shadowing) (instrumentId : UInt32) (evs : List SequencedEvent) : Prop :=
  (d.ignition.run evs).toMiniBook.Agrees (reference instrumentId evs) ∧
  (d.crash.run evs).toMiniBook.Agrees (reference instrumentId evs) ∧
  (d.proxy.run evs).toMiniBook.Agrees (reference instrumentId evs)

end Shadowing

/-- Along a stream that fits the machine words the detectors' books agree with the reference book
after every event exactly when every event resolves to the level the reference book takes from. -/
theorem detectors_follow_orderBook (d : Shadowing) (instrumentId : UInt32)
    (evs : List SequencedEvent) (hfeed : Feed instrumentId d.cap evs) :
    (Throughout Fits instrumentId evs → Throughout Resolves instrumentId evs →
      ∀ p, p <+: evs → d.Agree instrumentId p) ∧
    (Throughout Fits instrumentId evs → (∀ p, p <+: evs → d.Agree instrumentId p) →
      Throughout Resolves instrumentId evs) := by
  have hi : d.cap ≤ d.ignition.maxBookLevels := Nat.min_le_left _ _
  have hc : d.cap ≤ d.crash.maxBookLevels := (Nat.min_le_right _ _).trans (Nat.min_le_left _ _)
  have hx : d.cap ≤ d.proxy.maxBookLevels := (Nat.min_le_right _ _).trans (Nat.min_le_right _ _)
  constructor
  · intro hfit hres p hp
    refine ⟨?_, ?_, ?_⟩
    · rw [MomentumIgnitionDetector.run_book]
      exact MiniBook.run_agrees hfeed d.ignition_new hi hfit hres hp
    · rw [FlashCrashDetector.run_book]
      exact MiniBook.run_agrees hfeed d.crash_new hc hfit hres hp
    · rw [LatencyArbProxyDetector.run_book]
      exact MiniBook.run_agrees hfeed d.proxy_new hx hfit hres hp
  · intro hfit hagree
    refine MiniBook.resolves_of_agrees hfeed d.ignition_new hi hfit ?_
    intro p hp
    rw [← MomentumIgnitionDetector.run_book]
    exact (hagree p hp).1

/-- The detectors of `ChaosChain::default_itch` that keep a book. -/
def itchShadowing : Shadowing where
  ignition := .new 1024 0 64 5 8 4 2048
  crash := .new 10 8 64 5 0.6 3 2048
  proxy := .new 64 0 64 4 200 4 false 0 1024
  ignition_new := rfl
  crash_new := rfl
  proxy_new := rfl

/-- A condition along a stream, read position by position. -/
theorem throughout_of_get {P : OrderBook → Event → Prop} {instrumentId : UInt32}
    {evs : List SequencedEvent}
    (h : ∀ n : Fin evs.length, P (reference instrumentId (evs.take n)) (evs.get n).event) :
    Throughout P instrumentId evs :=
  fun _ _ hp =>
    Machine.steps_of_get (P := fun p ev => P (reference instrumentId p) ev.event) h hp

theorem feed_of_get {instrumentId : UInt32} {cap : Nat} {evs : List SequencedEvent}
    (hreg : ∀ ev ∈ evs, Regular ev.event)
    (hfresh : ∀ n : Fin evs.length,
      EventType.fromU8 (evs.get n).event.eventType = some .orderAdd →
        (reference instrumentId (evs.take n)).orders[(evs.get n).event.orderId]? = none)
    (hroom : ∀ n : Fin (evs.length + 1), (reference instrumentId (evs.take n)).bids.size ≤ cap ∧
      (reference instrumentId (evs.take n)).asks.size ≤ cap) :
    Feed instrumentId cap evs where
  regular := hreg
  fresh := throughout_of_get (P := fun b e => EventType.fromU8 e.eventType = some .orderAdd →
    b.orders[e.orderId]? = none) hfresh
  room p hp s := by
    have hn := Machine.parts_of_get (P := fun p => (reference instrumentId p).bids.size ≤ cap ∧
      (reference instrumentId p).asks.size ≤ cap) hroom hp
    cases s
    · exact hn.1
    · exact hn.2

/-- An order of 5 at 10 on the bid side. -/
def restingBid : SequencedEvent := ⟨1, 0, ⟨0, 10, 5, 1, 1, 1, 0⟩, (0, 0)⟩

/-- A print of 2 on the bid side. -/
def printed (price orderId : UInt64) : SequencedEvent :=
  ⟨2, 0, ⟨1, price, 2, orderId, 1, 4, 0⟩, (0, 0)⟩

/-- A partial fill printed at the order's own price. -/
theorem detectors_follow_orderBook_fill : itchShadowing.Agree 1 [restingBid, printed 10 1] := by
  have hfeed : Feed 1 itchShadowing.cap [restingBid, printed 10 1] :=
    feed_of_get (by decide) (by decide) (by decide)
  refine (detectors_follow_orderBook itchShadowing 1 _ hfeed).1 (throughout_of_get ?_)
    (throughout_of_get ?_) _ List.prefix_rfl
  · intro n
    fin_cases n
    · intro _ s _ l hl
      cases s <;> simp [reference, OrderBook.run, OrderBook.new, OrderBook.levels] at hl
    · exact fun hadd => absurd hadd (by decide)
  · intro n
    fin_cases n
    · exact trivial
    · have ho : (reference 1 [restingBid]).orders[(1 : UInt64)]? = some ⟨1, 10, 5, .bid⟩ := by decide
      show Resolves (reference 1 [restingBid]) (printed 10 1).event
      simp only [Resolves, printed, ho]
      exact Or.inr rfl

/-- The books of a stream part when some price shows two different entries. -/
theorem not_agree_of_bid {evs : List SequencedEvent} {p : UInt64} {o : Option UInt64}
    (hm : (itchShadowing.ignition.toMiniBook.run evs).bids[p]? = o)
    (hb : (reference 1 evs).bids[p]?.map Level.totalQty ≠ o) : ¬ itchShadowing.Agree 1 evs := by
  intro hagree
  have hlevel := hagree.1 .bid p
  rw [MomentumIgnitionDetector.run_book] at hlevel
  exact hb (hlevel.symm.trans hm)

/-- Two bids of 2^63 at 10 and the cancel of the first. -/
def overflowing : List SequencedEvent :=
  [⟨1, 0, ⟨0, 10, 0x8000000000000000, 1, 1, 1, 0⟩, (0, 0)⟩,
    ⟨2, 0, ⟨0, 10, 0x8000000000000000, 2, 1, 1, 0⟩, (0, 0)⟩, ⟨3, 0, ⟨0, 0, 0, 1, 1, 2, 0⟩, (0, 0)⟩]

/-- A print of an unknown order takes from the detectors' level at its price alone; a print of the
order off its own price takes from the reference book alone; and a level whose total wraps to 0 is
dropped by the detectors alone. -/
theorem detectors_part_from_orderBook :
    (Feed 1 itchShadowing.cap [restingBid, printed 10 2] ∧
      ¬ itchShadowing.Agree 1 [restingBid, printed 10 2]) ∧
    (Feed 1 itchShadowing.cap [restingBid, printed 9 1] ∧
      ¬ itchShadowing.Agree 1 [restingBid, printed 9 1]) ∧
    Feed 1 itchShadowing.cap overflowing ∧ ¬ itchShadowing.Agree 1 overflowing := by
  refine ⟨⟨?_, ?_⟩, ⟨?_, ?_⟩, ?_, ?_⟩
  · exact feed_of_get (by decide) (by decide) (by decide)
  · exact not_agree_of_bid (p := 10) (o := some 3) (by decide) (by decide)
  · exact feed_of_get (by decide) (by decide) (by decide)
  · exact not_agree_of_bid (p := 10) (o := some 5) (by decide) (by decide)
  · exact feed_of_get (by decide) (by decide) (by decide)
  · exact not_agree_of_bid (p := 10) (o := none) (by decide) (by decide)

end Flowlab.Chaos
