import Flowlab.Core.Residue
import Flowlab.Core.Modify
import Flowlab.Framework.Lanes

namespace Flowlab.Core

open Std Framework

namespace HotOrderBook

/-- One pass over a batch: run `f` on the events of a kind and count the changes it reports. -/
def lane {M : Nat} (kind : Event → Bool) (f : HotOrderBook M → Event → HotOrderBook M × Bool)
    (b : HotOrderBook M) (es : List Event) : HotOrderBook M × Nat :=
  es.foldl (fun r e =>
    if kind e then
      let s := f r.1 e
      (s.1, if s.2 then r.2 + 1 else r.2)
    else r) (b, 0)

/-- ADD lane, and the ADD half of MODIFY. -/
def applyLaneAdds {M : Nat} (b : HotOrderBook M) (es : List Event) : HotOrderBook M × Nat :=
  lane (fun e => e.eventType == EventType.orderAdd.toU8 || e.eventType == EventType.orderModify.toU8)
    addOrder b es

def applyLaneTrades {M : Nat} (b : HotOrderBook M) (es : List Event) : HotOrderBook M × Nat :=
  lane (fun e => e.eventType == EventType.trade.toU8) trade b es

def applyLaneCancels {M : Nat} (b : HotOrderBook M) (es : List Event) : HotOrderBook M × Nat :=
  lane (fun e => e.eventType == EventType.orderCancel.toU8) cancelOrder b es

/-- Lane-separated batch apply; the number is the changes of all three passes. -/
def applyLanes {M : Nat} (b : HotOrderBook M) (es : List Event) : HotOrderBook M × Nat :=
  let adds := b.applyLaneAdds es
  let trades := adds.1.applyLaneTrades es
  let cancels := trades.1.applyLaneCancels es
  (cancels.1, adds.2 + trades.2 + cancels.2)

/-- A lane is a loop over the events of its kind. -/
theorem lane_fst {M : Nat} (kind : Event → Bool)
    (f : HotOrderBook M → Event → HotOrderBook M × Bool) (b : HotOrderBook M) (es : List Event) :
    (lane kind f b es).1 = (es.filter kind).foldl (fun b e => (f b e).1) b := by
  have hgen (r : HotOrderBook M × Nat) : (es.foldl (fun r e =>
      if kind e then
        let s := f r.1 e
        (s.1, if s.2 then r.2 + 1 else r.2)
      else r) r).1 = (es.filter kind).foldl (fun b e => (f b e).1) r.1 := by
    induction es generalizing r with
    | nil => rfl
    | cons e es ih =>
      rw [List.foldl_cons, ih]
      cases hk : kind e with
      | true => rw [List.filter_cons_of_pos hk, List.foldl_cons, if_pos rfl]
      | false => rw [List.filter_cons_of_neg (by simp [hk]), if_neg (by simp)]
  exact hgen (b, 0)

end HotOrderBook

theorem EventType.fromU8_iff (v : UInt8) (t : EventType) : fromU8 v = some t ↔ v = t.toU8 := by
  simp only [fromU8]
  split <;> cases t <;> simp_all [toU8]

/-- `e.event_type == EventType::OrderAdd as u8`. -/
def Event.isAdd (e : Event) : Bool := e.eventType == EventType.orderAdd.toU8

def Event.isTrade (e : Event) : Bool := e.eventType == EventType.trade.toU8

def Event.isCancel (e : Event) : Bool := e.eventType == EventType.orderCancel.toU8

/-- What an add, a cancel or a trade makes of the order its id names. -/
def fate (e : Event) (o : Option OrderMeta) : Option OrderMeta :=
  match EventType.fromU8 e.eventType with
  | some .orderAdd => some e.rests
  | some .orderCancel => o.bind fun m => (cancelled e.qty m).1
  | some .trade => o.bind fun m => (filled e.qty m).1
  | _ => o

/-- The live orders after one event that is not refused. -/
def liveStep (t : ExtTreeMap UInt64 OrderMeta) (e : Event) : ExtTreeMap UInt64 OrderMeta :=
  FiniteMap.put t e.orderId (fate e t[e.orderId]?)

/-- A fill of `p` removes an order of at most `p` and takes `p` off a larger one. -/
theorem filled_fst (p : UInt64) (m : OrderMeta) :
    (filled p m).1 = if m.qty ≤ p then none else some { m with qty := m.qty - p } := by
  have hmin : min p m.qty = if p ≤ m.qty then p else m.qty := rfl
  simp only [filled]
  by_cases hle : m.qty ≤ p
  · have hall : min p m.qty = m.qty := by
      rw [hmin]
      split_ifs with h
      · exact UInt64.le_antisymm h hle
      · rfl
    rw [hall, UInt64.sub_self, if_pos hle, if_neg (by simp)]
  · have hpart : min p m.qty = p := by
      rw [hmin, if_pos (UInt64.le_of_lt (UInt64.not_le.mp hle))]
    have hne : m.qty - p ≠ 0 := by
      intro hz
      have heq : m.qty = p := by grind
      exact hle (heq ▸ UInt64.le_refl _)
    rw [hpart, if_neg hle, if_pos hne]

theorem cancelled_fst (q : UInt64) (m : OrderMeta) :
    (cancelled q m).1 = if q = 0 ∨ m.qty ≤ q then none else some { m with qty := m.qty - q } := by
  simp only [cancelled]
  split_ifs <;> rfl

/-- Two deductions one after the other exhaust what their sum exhausts. -/
theorem sub_le_iff {m p q : UInt64} (h : ¬ m ≤ q) : m - q ≤ p ↔ m.toNat ≤ p.toNat + q.toNat := by
  have hq : q ≤ m := UInt64.le_of_lt (UInt64.not_le.mp h)
  have hlt := UInt64.le_iff_toNat_le.mp hq
  rw [UInt64.le_iff_toNat_le, UInt64.toNat_sub_of_le m q hq]
  omega

/-- What an order loses it loses to cancels and fills alike: in which order does not matter. -/
theorem cancelled_filled_comm (p q : UInt64) (o : Option OrderMeta) :
    (o.bind fun m => (cancelled q m).1).bind (fun m => (filled p m).1) =
      (o.bind fun m => (filled p m).1).bind (fun m => (cancelled q m).1) := by
  cases o with
  | none => rfl
  | some m =>
    simp only [Option.bind_some, filled_fst, cancelled_fst]
    by_cases hz : q = 0
    · simp only [hz, true_or, if_true, Option.bind_none]
      split_ifs <;> simp
    · simp only [hz, false_or]
      by_cases hq : m.qty ≤ q
      · rw [if_pos hq, Option.bind_none]
        by_cases hp : m.qty ≤ p
        · rw [if_pos hp, Option.bind_none]
        · have hle := UInt64.le_iff_toNat_le.mp hq
          rw [if_neg hp, Option.bind_some, if_pos ((sub_le_iff hp).mpr (by omega))]
      · rw [if_neg hq, Option.bind_some]
        by_cases hp : m.qty ≤ p
        · have hle := UInt64.le_iff_toNat_le.mp hp
          rw [if_pos hp, Option.bind_none, if_pos ((sub_le_iff hq).mpr (by omega))]
        · rw [if_neg hp, Option.bind_some]
          have hiff : m.qty - q ≤ p ↔ m.qty - p ≤ q := by
            rw [sub_le_iff hq, sub_le_iff hp, Nat.add_comm]
          by_cases hall : m.qty - q ≤ p
          · rw [if_pos hall, if_pos (hiff.mp hall)]
          · have hsub : m.qty - q - p = m.qty - p - q := by grind
            rw [if_neg hall, if_neg (fun h => hall (hiff.mpr h)), hsub]

/-- Events of different ids do not see each other. -/
theorem liveStep_comm_ne {d e : Event} (h : d.orderId ≠ e.orderId)
    (t : ExtTreeMap UInt64 OrderMeta) : liveStep (liveStep t d) e = liveStep (liveStep t e) d := by
  simp only [liveStep, FiniteMap.get_put]
  rw [if_neg (Ne.symm h), if_neg h, FiniteMap.put_comm t h]

theorem liveStep_comm_trade {d e : Event} (hd : EventType.fromU8 d.eventType = some .orderCancel)
    (he : EventType.fromU8 e.eventType = some .trade) (t : ExtTreeMap UInt64 OrderMeta) :
    liveStep (liveStep t d) e = liveStep (liveStep t e) d := by
  by_cases h : d.orderId = e.orderId
  · simp only [liveStep, FiniteMap.get_put, h, if_true]
    rw [FiniteMap.put_put, FiniteMap.put_put]
    simp only [fate, hd, he]
    rw [cancelled_filled_comm]
  · exact liveStep_comm_ne h t

/-- Events of other ids leave an order alone. -/
theorem get_foldl_liveStep {l : List Event} {i : UInt64} (h : ∀ e ∈ l, e.orderId ≠ i)
    (t : ExtTreeMap UInt64 OrderMeta) : (l.foldl liveStep t)[i]? = t[i]? := by
  induction l generalizing t with
  | nil => rfl
  | cons e l ih =>
    rw [List.foldl_cons, ih (fun d hd => h d (List.mem_cons_of_mem e hd)), liveStep,
      FiniteMap.get_put, if_neg (Ne.symm (h e List.mem_cons_self))]

theorem isAdd_iff {e : Event} :
    e.isAdd = true ↔ EventType.fromU8 e.eventType = some .orderAdd := by
  rw [Event.isAdd, beq_iff_eq, EventType.fromU8_iff]

theorem isTrade_iff {e : Event} : e.isTrade = true ↔ EventType.fromU8 e.eventType = some .trade := by
  rw [Event.isTrade, beq_iff_eq, EventType.fromU8_iff]

theorem isCancel_iff {e : Event} :
    e.isCancel = true ↔ EventType.fromU8 e.eventType = some .orderCancel := by
  rw [Event.isCancel, beq_iff_eq, EventType.fromU8_iff]

namespace Book

theorem orders_settle (k : Book) (i : UInt64) (f : OrderMeta → Option OrderMeta × UInt64 × Bool) :
    (k.settle i f).orders = FiniteMap.put k.orders i (k.orders[i]?.bind fun m => (f m).1) := by
  simp only [settle]
  cases hm : k.orders[i]? with
  | none =>
    have hself := FiniteMap.put_self k.orders i
    rw [hm] at hself
    exact hself.symm
  | some m =>
    dsimp only [deductOn]
    rw [alterSide_orders]
    rfl

section

variable {M n : Nat} {R : Residue} {k : Book} {e : Event}

theorem orders_apply (he : Accountable e) (hp : e.isAdd = true → (k.addOrder M e).2 = true) :
    (k.apply M e).1.orders = liveStep k.orders e := by
  simp only [Book.apply, liveStep, fate]
  rcases he.kind with ht | ht | ht
  · rw [ht]
    dsimp only
    rw [addOrder_place he.orderId (hp (isAdd_iff.mpr ht)), orders_place]
    rfl
  · rw [ht]
    dsimp only
    rw [cancelOrder_settle he.orderId, orders_settle]
  · rw [ht]
    dsimp only
    rw [trade_settle he.orderId, orders_settle]

/-- An add of a new id, a cancel or a trade leaves the residue as it is. -/
theorem Owes.apply (h : k.Owes R n) (he : Accountable e) (hn : n + 1 < 2 ^ 31)
    (hp : e.isAdd = true → (k.addOrder M e).2 = true ∧ k.orders[e.orderId]? = none) :
    (k.apply M e).1.Owes R (n + 1) := by
  simp only [Book.apply]
  rcases he.kind with ht | ht | ht
  · obtain ⟨hplaced, hnew⟩ := hp (isAdd_iff.mpr ht)
    rw [ht]
    dsimp only
    rw [addOrder_place he.orderId hplaced]
    exact h.place_new he.qty hn hnew
  · rw [ht]
    exact (h.cancelOrder he.orderId).mono (Nat.le_succ n)
  · rw [ht]
    exact (h.trade he.orderId).mono (Nat.le_succ n)

/-- A run without refusals and without adds of live ids keeps the residue, and each live order goes
through the events of its own id. -/
theorem Owes.run (h : k.Owes R n) {l : List Event} (hev : ∀ e ∈ l, Accountable e)
    (hn : n + l.length < 2 ^ 31)
    (hnew : l.Pairwise fun d e => e.isAdd = true → d.orderId ≠ e.orderId)
    (hfresh : ∀ e ∈ l, e.isAdd = true → k.orders[e.orderId]? = none)
    (hplaced : ∀ p e, p ++ [e] <+: l → e.isAdd = true → ((k.run M p).addOrder M e).2 = true) :
    (k.run M l).Owes R (n + l.length) ∧ (k.run M l).orders = l.foldl liveStep k.orders := by
  induction l using List.reverseRecOn with
  | nil => exact ⟨h, rfl⟩
  | append_singleton l e ih =>
    rw [List.length_append, List.length_singleton] at hn ⊢
    have hpair := List.pairwise_append.mp hnew
    obtain ⟨howes, horders⟩ := ih (fun d hd => hev d (List.mem_append_left _ hd)) (by omega)
      hpair.1 (fun d hd => hfresh d (List.mem_append_left _ hd))
      (fun p d hp => hplaced p d (hp.trans (List.prefix_append l [e])))
    have hlast := hplaced l e List.prefix_rfl
    have hnone (ha : e.isAdd = true) : (k.run M l).orders[e.orderId]? = none := by
      rw [horders, get_foldl_liveStep (fun d hd => hpair.2.2 d hd e (by simp) ha)]
      exact hfresh e (by simp) ha
    have he := hev e (by simp)
    have hstep : k.run M (l ++ [e]) = ((k.run M l).apply M e).1 := by
      rw [Book.run, List.foldl_append]
      rfl
    rw [hstep, List.foldl_append, List.foldl_cons, List.foldl_nil, ← horders]
    exact ⟨howes.apply he (by omega) (fun ha => ⟨hlast ha, hnone ha⟩), orders_apply he hlast⟩

end

end Book

/-- Adds, then trades, then cancels. -/
def byLane (es : List Event) : List Event :=
  es.filter Event.isAdd ++ (es.filter Event.isTrade ++ es.filter Event.isCancel)

theorem mem_byLane {es : List Event} {e : Event} (h : e ∈ byLane es) : e ∈ es := by
  simp only [byLane, List.mem_append, List.mem_filter] at h
  rcases h with h | h | h <;> exact h.1

/-- The lanes go through the live orders as the batch itself does. -/
theorem foldl_byLane {es : List Event} (hev : ∀ e ∈ es, Accountable e)
    (hafter : es.Pairwise fun d e => e.isAdd = true → d.orderId ≠ e.orderId)
    (t : ExtTreeMap UInt64 OrderMeta) :
    (byLane es).foldl liveStep t = es.foldl liveStep t := by
  have hkind {e : Event} (he : e ∈ es) :
      e.eventType = 1 ∨ e.eventType = 2 ∨ e.eventType = 4 := by
    rcases (hev e he).kind with ht | ht | ht
    · exact Or.inl ((EventType.fromU8_iff _ _).mp ht)
    · exact Or.inr (Or.inl ((EventType.fromU8_iff _ _).mp ht))
    · exact Or.inr (Or.inr ((EventType.fromU8_iff _ _).mp ht))
  have htrades : (es.filter fun e => !e.isAdd).filter Event.isTrade = es.filter Event.isTrade := by
    rw [List.filter_filter]
    refine List.filter_congr ?_
    intro e he
    rcases hkind he with ht | ht | ht <;> simp [Event.isAdd, Event.isTrade, ht, EventType.toU8]
  have hcancels : (es.filter fun e => !e.isAdd).filter (fun e => !e.isTrade) =
      es.filter Event.isCancel := by
    rw [List.filter_filter]
    refine List.filter_congr ?_
    intro e he
    rcases hkind he with ht | ht | ht <;>
      simp [Event.isAdd, Event.isTrade, Event.isCancel, ht, EventType.toU8]
  have hadds : es.foldl liveStep t = (es.filter fun e => !e.isAdd).foldl liveStep
      ((es.filter Event.isAdd).foldl liveStep t) := by
    refine Lanes.foldl_lanes Event.isAdd (hafter.imp ?_) t
    intro d e h _ he s
    exact liveStep_comm_ne (h he) s
  have hrest (s : ExtTreeMap UInt64 OrderMeta) : (es.filter fun e => !e.isAdd).foldl liveStep s =
      (es.filter Event.isCancel).foldl liveStep ((es.filter Event.isTrade).foldl liveStep s) := by
    rw [← htrades, ← hcancels]
    refine Lanes.foldl_lanes Event.isTrade (List.pairwise_of_forall_mem_list ?_) s
    intro d hd e _ hdt het u
    have hda : d.isAdd = false := by simpa using List.of_mem_filter hd
    refine liveStep_comm_trade ?_ (isTrade_iff.mp het) u
    rcases (hev d (List.mem_of_mem_filter hd)).kind with ht | ht | ht
    · rw [isAdd_iff.mpr ht] at hda
      exact absurd hda (by simp)
    · exact ht
    · rw [isTrade_iff.mpr ht] at hdt
      exact absurd hdt (by simp)
  rw [hadds, hrest, byLane, List.foldl_append, List.foldl_append]

namespace HotOrderBook

theorem run_append {M : Nat} (b : HotOrderBook M) (p q : List Event) :
    b.run (p ++ q) = (b.run p).run q := List.foldl_append

/-- A loop of one operation is a run when the events are of its kind. -/
theorem run_of_kind {M : Nat} {f : HotOrderBook M → Event → HotOrderBook M × Bool} {l : List Event}
    (h : ∀ e ∈ l, ∀ b, HotOrderBook.apply b e = f b e) (b : HotOrderBook M) :
    l.foldl (fun b e => (f b e).1) b = b.run l := by
  induction l generalizing b with
  | nil => rfl
  | cons e l ih =>
    rw [List.foldl_cons, ih (fun d hd => h d (List.mem_cons_of_mem e hd)), ← h e List.mem_cons_self]
    rfl

theorem applyLaneAdds_run {M : Nat} (b : HotOrderBook M) {es : List Event}
    (hev : ∀ e ∈ es, Accountable e) : (b.applyLaneAdds es).1 = b.run (es.filter Event.isAdd) := by
  have hkind : es.filter (fun e => e.eventType == EventType.orderAdd.toU8 ||
      e.eventType == EventType.orderModify.toU8) = es.filter Event.isAdd := by
    refine List.filter_congr ?_
    intro e he
    rcases (hev e he).kind with ht | ht | ht <;>
      simp [Event.isAdd, (EventType.fromU8_iff _ _).mp ht, EventType.toU8]
  rw [applyLaneAdds, lane_fst, hkind]
  refine run_of_kind ?_ b
  intro e he c
  simp only [apply, isAdd_iff.mp (List.of_mem_filter he)]

theorem applyLanes_run {M : Nat} (b : HotOrderBook M) {es : List Event}
    (hev : ∀ e ∈ es, Accountable e) : (b.applyLanes es).1 = b.run (byLane es) := by
  have htrades (c : HotOrderBook M) :
      (c.applyLaneTrades es).1 = c.run (es.filter Event.isTrade) := by
    rw [applyLaneTrades, lane_fst]
    refine run_of_kind ?_ c
    intro e he d
    simp only [apply, isTrade_iff.mp (List.of_mem_filter he)]
  have hcancels (c : HotOrderBook M) :
      (c.applyLaneCancels es).1 = c.run (es.filter Event.isCancel) := by
    rw [applyLaneCancels, lane_fst]
    refine run_of_kind ?_ c
    intro e he d
    simp only [apply, isCancel_iff.mp (List.of_mem_filter he)]
  rw [byLane, run_append, run_append, ← htrades, ← hcancels, ← applyLaneAdds_run b hev]
  rfl

/-- Along a short stream the flags are those of the abstract book. -/
theorem short_run_flag (M : Nat) (instrumentId : UInt32) (es : List Event)
    (hlen : es.length + 1 < 2 ^ 32) (e : Event) :
    (((new M instrumentId).run es).apply e).2 = ((Book.empty.run M es).apply M e).2 := by
  obtain ⟨hw, hv⟩ := short_run_refines M instrumentId es (by omega)
  have hsize := Book.size_apply M (Book.empty.run M es) e
  have hrun := Book.size_empty_run M es
  rw [← hv] at hsize hrun ⊢
  exact (hw.apply_refines (grows_run M instrumentId es hlen) e (by omega)).2.2

/-- A batch the lanes are meant for: adds, cancels and trades, each added id new to the book, added
once and not referenced before its add, and no add refused, neither one by one nor in its lane. -/
structure Conformant {M : Nat} (b : HotOrderBook M) (batch : List Event) : Prop where
  events : ∀ e ∈ batch, Accountable e
  once : batch.Pairwise fun d e => d.isAdd = true → e.isAdd = true → d.orderId ≠ e.orderId
  fresh : ∀ e ∈ batch, e.isAdd = true → b.orderMeta e.orderId = none
  follows : batch.Pairwise fun d e => d.isAdd = false → e.isAdd = true → d.orderId ≠ e.orderId
  serial : ∀ p e, p ++ [e] <+: batch → e.isAdd = true → ((b.run p).apply e).2 = true
  lanes : ∀ p e, p ++ [e] <+: batch → e.isAdd = true → ((b.applyLaneAdds p).1.addOrder e).2 = true

section

variable {M : Nat} {history batch : List Event}

/-- A short second run on top of a first one, against the abstract book. -/
theorem view_run_run (instrumentId : UInt32) (history p : List Event)
    (hlen : history.length + p.length < 2 ^ 32) :
    (((new M instrumentId).run history).run p).view = (Book.empty.run M history).run M p := by
  have happ : (Book.empty.run M history).run M p = Book.empty.run M (history ++ p) :=
    List.foldl_append.symm
  rw [← run_append, happ]
  exact (short_run_refines M instrumentId (history ++ p) (by rw [List.length_append]; omega)).2

theorem flag_run_run (instrumentId : UInt32) (history p : List Event)
    (hlen : history.length + p.length + 1 < 2 ^ 32) (e : Event) :
    ((((new M instrumentId).run history).run p).apply e).2 =
      (((Book.empty.run M history).run M p).apply M e).2 := by
  have happ : (Book.empty.run M history).run M p = Book.empty.run M (history ++ p) :=
    List.foldl_append.symm
  rw [← run_append, happ]
  exact short_run_flag M instrumentId (history ++ p) (by rw [List.length_append]; omega) e

/-- What a run of the batch's events, in any order that keeps the adds placed and new, comes to. -/
theorem run_owes {R : Residue} (instrumentId : UInt32)
    (howes : (Book.empty.run M history).Owes R history.length)
    {l : List Event} (hlen : history.length + l.length < 2 ^ 31) (hev : ∀ e ∈ l, Accountable e)
    (hnew : l.Pairwise fun d e => e.isAdd = true → d.orderId ≠ e.orderId)
    (hfresh : ∀ e ∈ l, e.isAdd = true →
      ((new M instrumentId).run history).orderMeta e.orderId = none)
    (hplaced : ∀ p e, p ++ [e] <+: l → e.isAdd = true →
      ((((new M instrumentId).run history).run p).apply e).2 = true) :
    (((new M instrumentId).run history).run l).view.Owes R (history.length + l.length) ∧
      (((new M instrumentId).run history).run l).view.orders =
        l.foldl liveStep (Book.empty.run M history).orders := by
  rw [view_run_run instrumentId history l (by omega)]
  refine howes.run hev hlen hnew ?_ ?_
  · intro e he ha
    have hnone := hfresh e he ha
    have h0 : ((new M instrumentId).run history).view = Book.empty.run M history :=
      (short_run_refines M instrumentId history (by omega)).2
    rw [← h0, view, OrderSlab.live_get]
    exact hnone
  · intro p e hp ha
    have hflag := hplaced p e hp ha
    have := hp.length_le
    rw [List.length_append, List.length_singleton] at this
    rw [flag_run_run instrumentId history p (by omega)] at hflag
    simpa only [Book.apply, isAdd_iff.mp ha] using hflag

theorem Conformant.after {b : HotOrderBook M} (h : b.Conformant batch) :
    batch.Pairwise fun d e => e.isAdd = true → d.orderId ≠ e.orderId := by
  refine (h.once.and h.follows).imp ?_
  intro d e hde ha
  cases hd : d.isAdd with
  | true => exact hde.1 hd ha
  | false => exact hde.2 hd ha

theorem pairwise_byLane (h : batch.Pairwise fun d e => e.isAdd = true → d.orderId ≠ e.orderId) :
    (byLane batch).Pairwise fun d e => e.isAdd = true → d.orderId ≠ e.orderId := by
  have hnot {e : Event} (he : e ∈ batch.filter Event.isTrade ++ batch.filter Event.isCancel) :
      e.isAdd = false := by
    simp only [List.mem_append, List.mem_filter, Event.isTrade, Event.isCancel, beq_iff_eq] at he
    rcases he with he | he <;> simp [Event.isAdd, he.2, EventType.toU8]
  refine List.pairwise_append.mpr ⟨h.sublist List.filter_sublist, ?_, ?_⟩
  · refine List.pairwise_of_forall_mem_list ?_
    intro d _ e he ha
    exact absurd ha (by simp [hnot he])
  · intro d _ e he ha
    exact absurd ha (by simp [hnot he])

theorem length_byLane_le (es : List Event) : (byLane es).length ≤ es.length := by
  induction es with
  | nil => exact Nat.le_refl _
  | cons e es ih =>
    simp only [byLane, List.length_append, List.length_cons] at ih ⊢
    simp only [List.filter_cons]
    have hexcl : (e.isAdd = true → e.isTrade = false ∧ e.isCancel = false) ∧
        (e.isTrade = true → e.isCancel = false) := by
      refine ⟨?_, ?_⟩ <;> intro h <;>
        simp only [Event.isAdd, Event.isTrade, Event.isCancel, beq_iff_eq] at h ⊢ <;>
        simp [h, EventType.toU8]
    cases ha : e.isAdd with
    | true =>
      obtain ⟨ht, hc⟩ := hexcl.1 ha
      simp only [ht, hc, if_true, Bool.false_eq_true, if_false, List.length_cons]
      omega
    | false =>
      cases ht : e.isTrade with
      | true =>
        simp only [hexcl.2 ht, if_true, Bool.false_eq_true, if_false, List.length_cons]
        omega
      | false =>
        cases e.isCancel with
        | true =>
          simp only [if_true, Bool.false_eq_true, if_false, List.length_cons]
          omega
        | false =>
          simp only [Bool.false_eq_true, if_false]
          omega

/-- In the lanes every add of the batch is placed, too. -/
theorem Conformant.placed_byLane {b : HotOrderBook M} (h : b.Conformant batch) (p : List Event)
    (e : Event) (hp : p ++ [e] <+: byLane batch) (ha : e.isAdd = true) :
    ((b.run p).apply e).2 = true := by
  have hnot : e ∉ batch.filter Event.isTrade ++ batch.filter Event.isCancel := by
    intro he
    simp only [Event.isAdd, beq_iff_eq] at ha
    simp [Event.isTrade, Event.isCancel, ha, EventType.toU8] at he
  obtain ⟨q, hq, rfl⟩ := Lanes.exists_prefix_of_filter (Lanes.prefix_left_of_append hp hnot)
  have hflag := h.lanes q e hq ha
  have hsub : q <+: batch := (List.prefix_append q [e]).trans hq
  rw [applyLaneAdds_run b (fun d hd => h.events d (hsub.subset hd))] at hflag
  simpa only [apply, isAdd_iff.mp ha] using hflag

end

end HotOrderBook

/-- For every book an order-id stream can reach and every conformant batch, the lanes end with the
ladders and live orders of the serial loop. -/
theorem applyLanes_matches_serial (M : Nat) (instrumentId : UInt32) (history batch : List Event)
    (hhist : ∀ e ∈ history, e.orderId ≠ 0 ∧ e.qty.toNat < 2 ^ 32)
    (hbatch : ((HotOrderBook.new M instrumentId).run history).Conformant batch)
    (hlen : history.length + batch.length < 2 ^ 31) :
    (((HotOrderBook.new M instrumentId).run history).applyLanes batch).1.view =
      (((HotOrderBook.new M instrumentId).run history).run batch).view := by
  obtain ⟨R, hR⟩ := Book.exists_owes_run M history hhist (by omega)
  have hlane := HotOrderBook.length_byLane_le batch
  obtain ⟨hserial, horders⟩ := HotOrderBook.run_owes instrumentId hR hlen
    hbatch.events hbatch.after hbatch.fresh hbatch.serial
  obtain ⟨hlanes, horders'⟩ := HotOrderBook.run_owes instrumentId hR
    (l := byLane batch) (by omega) (fun e he => hbatch.events e (mem_byLane he))
    (HotOrderBook.pairwise_byLane hbatch.after) (fun e he => hbatch.fresh e (mem_byLane he))
    hbatch.placed_byLane
  rw [HotOrderBook.applyLanes_run _ hbatch.events]
  refine hlanes.unique hserial ?_
  rw [horders, horders', foldl_byLane hbatch.events hbatch.after]

/-- A fill and a partial cancel of a resting order around the add and the fill of a second one. -/
theorem applyLanes_matches_serial_mixed :
    (((HotOrderBook.new 2 1).run [⟨0, 10, 5, 1, 1, 1, 0⟩]).applyLanes
      [⟨1, 0, 2, 1, 1, 4, 0⟩, ⟨2, 10, 7, 2, 1, 1, 0⟩, ⟨3, 0, 1, 1, 1, 2, 0⟩]).1.view =
    (((HotOrderBook.new 2 1).run [⟨0, 10, 5, 1, 1, 1, 0⟩]).run
      [⟨1, 0, 2, 1, 1, 4, 0⟩, ⟨2, 10, 7, 2, 1, 1, 0⟩, ⟨3, 0, 1, 1, 1, 2, 0⟩]).view := by
  refine applyLanes_matches_serial 2 1 _ _ ?_ ⟨?_, by decide, by decide, by decide, ?_, ?_⟩ (by decide)
  · intro e he
    rw [List.mem_singleton.mp he]
    decide
  · intro e he
    fin_cases he <;> exact ⟨by decide, by decide, by decide⟩
  · intro p e hp
    apply Machine.steps_of_get _ hp
    decide
  · intro p e hp
    apply Machine.steps_of_get _ hp
    decide

end Flowlab.Core
