import Flowlab.Chaos.FlashCrash
import Flowlab.Chaos.LatencyArbProxy
import Flowlab.Chaos.MomentumIgnition

namespace Flowlab.Chaos

open Flowlab.Core (Event EventType Side SequencedEvent)

/-- The detectors of the chain that keep a book of their own. -/
structure ChaosChain where
  ignition : MomentumIgnitionDetector
  crash : FlashCrashDetector
  proxy : LatencyArbProxyDetector

/-- Which of them. -/
inductive BookDetector where
  | ignition
  | crash
  | proxy
  deriving DecidableEq, Repr

namespace ChaosChain

def defaultItch : ChaosChain where
  ignition := .new 1024 0 64 5 8 4 2048
  crash := .new 10 8 64 5 0.6 3 2048
  proxy := .new 64 0 64 4 200 4 false 0 1024

/-- Every detector sees the event; their flags come out in chain order. -/
def processInto (c : ChaosChain) (ev : SequencedEvent) : ChaosChain × List ChaosEvent :=
  let i := c.ignition.process ev
  let r := c.crash.process ev
  let p := c.proxy.process ev
  (⟨i.1, r.1, p.1⟩, i.2.toList ++ r.2.toList ++ p.2.toList)

def mini (c : ChaosChain) : BookDetector → MiniBook
  | .ignition => c.ignition.toMiniBook
  | .crash => c.crash.toMiniBook
  | .proxy => c.proxy.toMiniBook

theorem mini_processInto (c : ChaosChain) (ev : SequencedEvent) (d : BookDetector) :
    (c.processInto ev).1.mini d = (c.mini d).apply ev.event := by
  cases d with
  | ignition => exact c.ignition.process_book ev
  | crash => exact c.crash.process_book ev
  | proxy => exact c.proxy.process_book ev

end ChaosChain

namespace MiniBook

open Flowlab.Framework

/-- A level of the book. -/
def Holds (m : MiniBook) (s : Side) (p : UInt64) : Prop := (m.book s.toU8)[p]? ≠ none

/-- The event adds at this side and price. -/
def Places (e : Event) (s : Side) (p : UInt64) : Prop :=
  EventType.fromU8 e.eventType = some .orderAdd ∧ Side.fromU8 e.side = some s ∧ e.price = p

theorem holds_setBook {m : MiniBook} {side : UInt8} {t : Std.ExtTreeMap UInt64 UInt64}
    (hsub : ∀ p : UInt64, t[p]? ≠ none → (m.book side)[p]? ≠ none) {s : Side} {p : UInt64}
    (h : (m.setBook side t).Holds s p) : m.Holds s p := by
  simp only [setBook] at h
  simp only [book] at hsub
  split_ifs at h hsub with hs
  · cases s
    · exact hsub p h
    · exact h
  · cases s
    · exact h
    · exact hsub p h

theorem holds_subQty {m : MiniBook} {side : UInt8} {price qty : UInt64} {s : Side} {p : UInt64}
    (h : (m.subQty side price qty).Holds s p) : m.Holds s p := by
  simp only [subQty] at h
  split at h
  · exact h
  · next entry he =>
    split_ifs at h
    all_goals
      refine holds_setBook ?_ h
      intro q hq
      by_cases hqp : q = price
      · rw [hqp, he]
        simp
      · simpa [FiniteMap.get_erase, FiniteMap.get_insert, hqp] using hq

/-- Eviction only takes levels away. -/
theorem pruneLoop_sub {side : UInt8} {cap n : Nat} {t : Std.ExtTreeMap UInt64 UInt64} {p : UInt64}
    (h : (pruneLoop side cap n t)[p]? ≠ none) : t[p]? ≠ none := by
  induction n generalizing t with
  | zero => exact h
  | succ n ih =>
    rw [pruneLoop] at h
    split_ifs at h
    · split at h
      · have herased := ih h
        rw [FiniteMap.get_erase] at herased
        split_ifs at herased
        · exact absurd rfl herased
        · exact herased
      · exact h
    · exact h

theorem holds_addQty {m : MiniBook} {r s : Side} {price qty p : UInt64}
    (h : (m.addQty r.toU8 price qty).Holds s p) : m.Holds s p ∨ (r = s ∧ price = p) := by
  by_cases hplace : r = s ∧ price = p
  · exact Or.inr hplace
  · refine Or.inl ?_
    have hin (t : Std.ExtTreeMap UInt64 UInt64) : (m.setBook r.toU8 t).book s.toU8 =
        if s = r then t else m.book s.toU8 := by
      cases r <;> cases s <;> rfl
    rw [Holds, addQty, hin] at h
    split_ifs at h with hs
    · have hins := pruneLoop_sub h
      rw [FiniteMap.get_insert] at hins
      split_ifs at hins with hp
      · exact absurd ⟨hs.symm, hp.symm⟩ hplace
      · rw [Holds, hs]
        exact hins
    · exact h

theorem onAdd_update (t : OrderTracker) (e : Event) :
    (t.onAdd e).2 = anonymousUpdate e.side e.price e.qty := by
  simp only [OrderTracker.onAdd]
  cases anonymousUpdate e.side e.price e.qty with
  | none => rfl
  | some u =>
    dsimp only
    split_ifs <;> rfl

theorem side_of_anonymous {side : UInt8} {price qty : UInt64} {u : ResolvedBookUpdate}
    (h : anonymousUpdate side price qty = some u) :
    ∃ r, Side.fromU8 side = some r ∧ u = ⟨r.toU8, price, qty⟩ := by
  simp only [anonymousUpdate] at h
  split_ifs at h with hs
  rw [← Option.some.inj h]
  rcases hs with rfl | rfl
  · exact ⟨.bid, rfl, rfl⟩
  · exact ⟨.ask, rfl, rfl⟩

theorem holds_tracker {m : MiniBook} {t : OrderTracker} {s : Side} {p : UInt64}
    (h : ({ m with orderTracker := t } : MiniBook).Holds s p) : m.Holds s p := by
  cases s <;> exact h

/-- Levels come from adds alone. -/
theorem holds_apply {m : MiniBook} {e : Event} {s : Side} {p : UInt64} (h : (m.apply e).Holds s p) :
    m.Holds s p ∨ Places e s p := by
  simp only [apply] at h
  split at h
  · next ht =>
    simp only [onAdd, onAdd_update] at h
    split at h
    · next u hu =>
      obtain ⟨r, hr, rfl⟩ := side_of_anonymous hu
      rcases holds_addQty h with hold | hplace
      · exact Or.inl (holds_tracker hold)
      · exact Or.inr ⟨ht, hplace.1 ▸ hr, hplace.2⟩
    · exact Or.inl (holds_tracker h)
  · simp only [onCancel] at h
    split at h
    · exact Or.inl (holds_tracker (holds_subQty h))
    · exact Or.inl (holds_tracker h)
  · simp only [onTrade] at h
    split at h
    · exact Or.inl (holds_tracker (holds_subQty h))
    · exact Or.inl (holds_tracker h)
  · exact Or.inl h

end MiniBook

end Flowlab.Chaos
