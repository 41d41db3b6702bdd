import Flowlab.Chaos.BandDepthRun
import Flowlab.Chaos.Generators

namespace Flowlab.Chaos

open Std Framework
open Flowlab.Core (Event EventType Side OrderMeta SequencedEvent satSub64 satSub64_toNat)

/-- The price of the near level of a side and of the far one. -/
def rung (base : UInt64) (s : Side) (near : Bool) : UInt64 := behind s base (if near then 1 else 200)

/-- The prices stay clear of both ends of the range, and so does the sum of two of them. -/
structure Clear (base : UInt64) : Prop where
  lo : 1000 ≤ base.toNat
  hi : base.toNat < 2 ^ 63

theorem bid_toNat (base : UInt64) (near : Bool) :
    (rung base .bid near).toNat = base.toNat - if near then 1 else 200 := by
  cases near <;> exact satSub64_toNat base _

theorem not_better {s : Side} {p q : UInt64} (h : Better s p q) : ¬ Better s q p := by
  cases s <;> exact UInt64.not_lt.mpr (UInt64.le_of_lt h)

section

variable {base : UInt64} (hbase : Clear base)

include hbase

theorem ask_toNat (near : Bool) :
    (rung base .ask near).toNat = base.toNat + if near then 1 else 200 := by
  have hhi := hbase.hi
  cases near with
  | true =>
    have h1 : (1 : UInt64).toNat = 1 := rfl
    refine (satAdd64_toNat base 1).trans ?_
    rw [if_pos rfl]
    omega
  | false =>
    have h200 : (200 : UInt64).toNat = 200 := rfl
    refine (satAdd64_toNat base 200).trans ?_
    rw [if_neg Bool.false_ne_true]
    omega

theorem better_near (s : Side) : Better s (rung base s true) (rung base s false) := by
  have hlo := hbase.lo
  cases s with
  | bid =>
    have hn := bid_toNat base true
    have hf := bid_toNat base false
    rw [if_pos rfl] at hn
    rw [if_neg Bool.false_ne_true] at hf
    show rung base .bid false < rung base .bid true
    rw [UInt64.lt_iff_toNat_lt]
    omega
  | ask =>
    have hn := ask_toNat hbase true
    have hf := ask_toNat hbase false
    rw [if_pos rfl] at hn
    rw [if_neg Bool.false_ne_true] at hf
    show rung base .ask true < rung base .ask false
    rw [UInt64.lt_iff_toNat_lt]
    omega

theorem rung_ne (s : Side) : rung base s true ≠ rung base s false := by
  have h := better_near hbase s
  intro he
  rw [he] at h
  exact not_better h h

end

/-- What a book of two levels a side holds. -/
structure Cells where
  nearBid : Option UInt64
  farBid : Option UInt64
  nearAsk : Option UInt64
  farAsk : Option UInt64

namespace Cells

def get (c : Cells) : Side → Bool → Option UInt64
  | .bid, true => c.nearBid
  | .bid, false => c.farBid
  | .ask, true => c.nearAsk
  | .ask, false => c.farAsk

def set (c : Cells) (s : Side) (near : Bool) (o : Option UInt64) : Cells :=
  match s, near with
  | .bid, true => { c with nearBid := o }
  | .bid, false => { c with farBid := o }
  | .ask, true => { c with nearAsk := o }
  | .ask, false => { c with farAsk := o }

theorem get_set (c : Cells) (s r : Side) (n m : Bool) (o : Option UInt64) :
    (c.set s n o).get r m = if r = s ∧ m = n then o else c.get r m := by
  cases s <;> cases n <;> cases r <;> cases m <;> rfl

/-- The quantity on one side. -/
def qty (c : Cells) (s : Side) : ℕ :=
  (c.get s true).elim 0 UInt64.toNat + (c.get s false).elim 0 UInt64.toNat

/-- The best price of one side. -/
def best (c : Cells) (base : UInt64) (s : Side) : Option UInt64 :=
  if c.get s true ≠ none then some (rung base s true)
  else if c.get s false ≠ none then some (rung base s false)
  else none

end Cells

/-- The book holds these cells and nothing else. -/
structure Rests (base : UInt64) (c : Cells) (b : MiniBook) : Prop where
  levels : ∀ (s : Side) (p : UInt64), (b.book s.toU8)[p]? =
    if p = rung base s true then c.get s true
    else if p = rung base s false then c.get s false
    else none
  cap : 2 ≤ b.maxBookLevels

namespace Rests

variable {base : UInt64} {c : Cells} {b : MiniBook}

/-- The tracker is not part of what rests. -/
theorem setTracker (h : Rests base c b) (t : OrderTracker) :
    Rests base c { b with orderTracker := t } := ⟨h.levels, h.cap⟩

theorem new {cap : ℕ} (hcap : 2 ≤ cap) : Rests base ⟨none, none, none, none⟩ (.new cap) := by
  refine ⟨?_, hcap⟩
  intro s p
  have hempty : ((MiniBook.new cap).book s.toU8)[p]? = none := by
    cases s <;> exact ExtTreeMap.getElem?_empty
  rw [hempty]
  cases s <;> split_ifs <;> rfl

section

variable (hbase : Clear base)

include hbase

theorem get (h : Rests base c b) (s : Side) (near : Bool) :
    (b.book s.toU8)[rung base s near]? = c.get s near := by
  rw [h.levels]
  cases near with
  | true => rw [if_pos rfl]
  | false => rw [if_neg (rung_ne hbase s).symm, if_pos rfl]

theorem total (h : Rests base c b) (s : Side) (f : UInt64 → UInt64 → ℕ) :
    FiniteMap.total f (b.book s.toU8) =
      (c.get s true).elim 0 (f (rung base s true)) + (c.get s false).elim 0 (f (rung base s false)) :=
  FiniteMap.total_two f (rung_ne hbase s) (h.levels s)

theorem size_le (h : Rests base c b) (s : Side) : (b.book s.toU8).size ≤ 2 := by
  rw [← FiniteMap.total_one, h.total hbase]
  cases c.get s true <;> cases c.get s false <;> simp

theorem put (h : Rests base c b) (s : Side) (near : Bool) (o : Option UInt64) :
    Rests base (c.set s near o)
      (b.setBook s.toU8 (FiniteMap.put (b.book s.toU8) (rung base s near) o)) := by
  refine ⟨?_, (MiniBook.setBook_cap b s.toU8 _).symm ▸ h.cap⟩
  intro r p
  have hne := rung_ne hbase s
  rw [MiniBook.book_setBook, Cells.get_set, Cells.get_set]
  by_cases hr : r = s
  · subst hr
    rw [if_pos rfl, FiniteMap.get_put, h.levels]
    cases near with
    | true =>
      simp only [true_and, if_true, Bool.false_eq_true, if_false]
      split_ifs <;> rfl
    | false =>
      simp only [true_and, if_true, Bool.true_eq_false, if_false]
      split_ifs with hf hn
      · exact absurd (hn.symm.trans hf) hne
      · rfl
      · rfl
      · rfl
  · simp only [hr, false_and, if_false]
    exact h.levels r p

theorem addQty (h : Rests base c b) (s : Side) (near : Bool) (q : UInt64) :
    Rests base (c.set s near (some ((c.get s near).getD 0 + q)))
      (b.addQty s.toU8 (rung base s near) q) := by
  have hput := h.put hbase s near (some ((c.get s near).getD 0 + q))
  have hsize := hput.size_le hbase s
  rw [MiniBook.book_setBook, if_pos rfl] at hsize
  simp only [FiniteMap.put] at hput hsize
  simp only [MiniBook.addQty, h.get hbase]
  rw [MiniBook.pruneLevels_within (hsize.trans h.cap)]
  exact hput

theorem subQty (h : Rests base c b) (s : Side) (near : Bool) (q : UInt64) :
    Rests base (c.set s near (lessened q (c.get s near))) (b.subQty s.toU8 (rung base s near) q) := by
  rw [MiniBook.subQty_eq, h.get hbase]
  exact h.put hbase s near _

theorem heldQty_eq (h : Rests base c b) (s : Side) : heldQty (b.book s.toU8) = c.qty s :=
  h.total hbase s fun _ q => q.toNat

theorem bestKey_eq (h : Rests base c b) (s : Side) : bestKey s (b.book s.toU8) = c.best base s := by
  rw [Cells.best]
  split_ifs with hnear hfar
  · refine bestKey_eq_some_iff.mpr ⟨by rw [h.get hbase]; exact hnear, ?_⟩
    intro k hk hbetter
    rw [h.levels] at hk
    split_ifs at hk with h1 h2
    · exact not_better hbetter (h1 ▸ hbetter)
    · exact not_better hbetter (h2 ▸ better_near hbase s)
    · exact hk rfl
  · refine bestKey_eq_some_iff.mpr ⟨by rw [h.get hbase]; exact hfar, ?_⟩
    intro k hk hbetter
    rw [h.levels] at hk
    split_ifs at hk with h1 h2
    · exact hnear hk
    · exact not_better hbetter (h2 ▸ hbetter)
    · exact hk rfl
  · refine Option.eq_none_iff_forall_ne_some.mpr fun p hp => ?_
    have hk := (bestKey_eq_some_iff.mp hp).1
    rw [h.levels] at hk
    split_ifs at hk
    · exact hnear hk
    · exact hfar hk
    · exact hk rfl

end

end Rests

/-! The events of such a book: adds and cancels under an id, trades against no known order. -/

namespace OrderTracker

variable {t : OrderTracker} {oid : UInt64} (hoid : oid ≠ 0)

include hoid

theorem onAdd_mk (t : OrderTracker) (seq ts : UInt64) (s : Side) (price qty : UInt64) :
    t.onAdd (Chaos.mk seq ts .orderAdd s price qty oid).event =
      (⟨t.orders.insert oid ⟨price, qty, s.toU8⟩⟩, some ⟨s.toU8, price, qty⟩) := by
  have hu : anonymousUpdate s.toU8 price qty = some ⟨s.toU8, price, qty⟩ := by cases s <;> rfl
  rw [onAdd]
  simp only [Chaos.mk, hu]
  exact if_pos hoid

theorem onCancel_mk (seq ts : UInt64) {s : Side} {price known qty : UInt64} (hqty : qty ≠ 0)
    (hle : qty ≤ known) (horder : t.orders[oid]? = some ⟨price, known, s.toU8⟩) :
    t.onCancel (Chaos.mk seq ts .orderCancel s price qty oid).event =
      (t.settle oid ⟨price, known, s.toU8⟩ qty, some ⟨s.toU8, price, qty⟩) := by
  have hall : resolvedQty known qty = qty := by
    rw [resolvedQty]
    split_ifs with h
    · rcases h with hzero | hge
      · exact absurd hzero hqty
      · exact UInt64.le_antisymm hge hle
    · rfl
  rw [onCancel]
  simp only [Chaos.mk, if_pos hoid, horder, hall]

theorem onTrade_mk (seq ts : UInt64) (s : Side) {price : UInt64} (hprice : price ≠ 0) (qty : UInt64)
    (horder : t.orders[oid]? = none) :
    t.onTrade (Chaos.mk seq ts .trade s price qty oid).event =
      (t, some ⟨⟨s.toU8, price, qty⟩, if s = .bid then .sell else .buy⟩) := by
  rw [onTrade]
  simp only [Chaos.mk, if_pos hoid, horder]
  refine (if_neg hprice).trans ?_
  cases s <;> rfl

end OrderTracker

namespace Rests

variable {base : UInt64} {c : Cells} {b : MiniBook} (hbase : Clear base) {oid : UInt64} (hoid : oid ≠ 0)

include hbase hoid

theorem onAdd (h : Rests base c b) (s : Side) (near : Bool) (qty seq ts : UInt64) :
    let b' := b.onAdd (Chaos.mk seq ts .orderAdd s (rung base s near) qty oid).event
    Rests base (c.set s near (some ((c.get s near).getD 0 + qty))) b' ∧
      b'.orderTracker.orders = b.orderTracker.orders.insert oid ⟨rung base s near, qty, s.toU8⟩ := by
  intro b'
  have hb' : b' = ({ b with orderTracker :=
      ⟨b.orderTracker.orders.insert oid ⟨rung base s near, qty, s.toU8⟩⟩ } : MiniBook).addQty s.toU8
        (rung base s near) qty := by
    simp only [b', MiniBook.onAdd, OrderTracker.onAdd_mk hoid]
  rw [hb']
  refine ⟨(h.setTracker _).addQty hbase s near qty, ?_⟩
  rw [MiniBook.addQty, MiniBook.setBook_tracker]

theorem onCancel (h : Rests base c b) (s : Side) (near : Bool) {known qty : UInt64} (seq ts : UInt64)
    (hqty : qty ≠ 0) (hle : qty ≤ known)
    (horder : b.orderTracker.orders[oid]? = some ⟨rung base s near, known, s.toU8⟩) :
    let b' := b.onCancel (Chaos.mk seq ts .orderCancel s (rung base s near) qty oid).event
    Rests base (c.set s near (lessened qty (c.get s near))) b' ∧
      b'.orderTracker = b.orderTracker.settle oid ⟨rung base s near, known, s.toU8⟩ qty := by
  intro b'
  have hb' : b' = ({ b with
      orderTracker := b.orderTracker.settle oid ⟨rung base s near, known, s.toU8⟩ qty } :
        MiniBook).subQty s.toU8 (rung base s near) qty := by
    simp only [b', MiniBook.onCancel, OrderTracker.onCancel_mk hoid seq ts hqty hle horder]
  rw [hb']
  refine ⟨(h.setTracker _).subQty hbase s near qty, ?_⟩
  rw [MiniBook.subQty_eq, MiniBook.setBook_tracker]

theorem onTrade (h : Rests base c b) (s : Side) (near : Bool) (qty seq ts : UInt64)
    (hprice : rung base s near ≠ 0) (horder : b.orderTracker.orders[oid]? = none) :
    let b' := (b.onTrade (Chaos.mk seq ts .trade s (rung base s near) qty oid).event).1
    Rests base (c.set s near (lessened qty (c.get s near))) b' ∧
      b'.orderTracker = b.orderTracker := by
  intro b'
  have hb' : b' = b.subQty s.toU8 (rung base s near) qty := by
    simp only [b', MiniBook.onTrade, OrderTracker.onTrade_mk hoid seq ts s hprice qty horder]
  rw [hb']
  refine ⟨h.subQty hbase s near qty, ?_⟩
  rw [MiniBook.subQty_eq, MiniBook.setBook_tracker]

end Rests

end Flowlab.Chaos
