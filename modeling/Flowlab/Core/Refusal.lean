import Flowlab.Core.Modify

namespace Flowlab.Core

open Std Framework

namespace Book

theorem addOrder_refused_iff (M : Nat) (k : Book) (e : Event) :
    (k.addOrder M e).2 = false ↔
      levelAt e.price (k.side (decide (e.side = 0))) = none ∧
        M ≤ (k.side (decide (e.side = 0))).length := by
  simp only [addOrder]
  split_ifs with hfull hid
  · exact iff_of_true rfl hfull
  · exact iff_of_false (by simp) hfull
  · exact iff_of_false (by simp) hfull

theorem side_alterSide_self (k : Book) (isBid : Bool) (p : UInt64) (f : Option Level → Option Level) :
    (k.alterSide isBid p f).side isBid =
      KeyedList.alter Level.price (ahead isBid) p f (k.side isBid) := by
  cases isBid <;> rfl

theorem side_alterSide_ne (k : Book) {isBid i : Bool} (h : i ≠ isBid) (p : UInt64)
    (f : Option Level → Option Level) : (k.alterSide isBid p f).side i = k.side i := by
  cases isBid <;> cases i <;> first | rfl | exact absurd rfl h

/-- A level that a deduction takes away. -/
def Drops (k : Book) (isBid : Bool) (p q : UInt64) (release : Bool) : Prop :=
  (levelAt p (k.side isBid)).isSome = true ∧ deducted q release (levelAt p (k.side isBid)) = none

/-- After a deduction an add is refused where it was refused before, unless a level of its side went
away with the deduction. -/
theorem refused_after_deduct {M : Nat} {k : Book} (hs : k.Sorted)
    (hlen : ∀ i, (k.side i).length ≤ M) (isBid : Bool) (p q : UInt64) (release : Bool) (i : Bool)
    (price : UInt64) :
    (levelAt price ((k.deductOn isBid p q release).1.side i) = none ∧
        M ≤ ((k.deductOn isBid p q release).1.side i).length) ↔
      M ≤ (k.side i).length ∧ levelAt price (k.side i) = none ∧
        ¬ (isBid = i ∧ k.Drops isBid p q release) := by
  simp only [deductOn]
  by_cases hi : isBid = i
  · subst hi
    have hlength := KeyedList.length_alter p (deducted q release) _ (sorted_side hs isBid)
    have hlookup := KeyedList.lookup_alter (deducted_files p q release) _ (sorted_side hs isBid) price
    have hle := hlen isBid
    rw [side_alterSide_self]
    simp only [true_and, Drops, levelAt] at hlookup ⊢
    rw [hlookup]
    cases hl : KeyedList.lookup Level.price p (k.side isBid) with
    | none =>
      rw [hl] at hlength
      have heq : (if price = p then deducted q release none
          else KeyedList.lookup Level.price price (k.side isBid)) =
            KeyedList.lookup Level.price price (k.side isBid) := by
        split_ifs with hp
        · rw [hp, hl]
          rfl
        · rfl
      rw [heq]
      simp only [deducted, Option.toList_none, List.length_nil, Nat.add_zero] at hlength
      rw [hlength]
      simp [and_comm]
    | some l =>
      rw [hl] at hlength
      cases hd : deducted q release (some l) with
      | none =>
        rw [hd] at hlength
        simp only [Option.toList_some, Option.toList_none, List.length_nil, List.length_singleton,
          Nat.add_zero] at hlength
        refine iff_of_false ?_ ?_
        · intro h
          omega
        · simp
      | some l' =>
        rw [hd] at hlength
        simp only [Option.toList_some, List.length_singleton, Nat.add_right_cancel_iff] at hlength
        rw [hlength]
        simp only [reduceCtorEq, and_false, not_false_eq_true, and_true]
        by_cases hp : price = p
        · subst hp
          simp [hl]
        · rw [if_neg hp]
          exact and_comm
  · rw [side_alterSide_ne k (fun h => hi h.symm)]
    simp only [hi, false_and, not_false_eq_true, and_true]
    exact and_comm

end Book

theorem deducted_none_iff (q : UInt64) (l : Level) :
    deducted q true (some l) = none ↔ l.orderCount ≤ 1 := by
  have hone : (1 : UInt32).toNat = 1 := rfl
  have hsat := satSub32_toNat l.orderCount 1
  simp only [deducted, if_true]
  split_ifs with hz
  · refine iff_of_true rfl ?_
    rw [hz] at hsat
    exact UInt32.le_iff_toNat_le.mpr (by simp at hsat; omega)
  · refine iff_of_false (by simp) ?_
    intro hle
    have hle' := UInt32.le_iff_toNat_le.mp hle
    exact hz (UInt32.toNat_inj.mp (by rw [UInt32.toNat_zero]; omega))

theorem min64_choice (a b : UInt64) : min a b = a ∨ min a b = b := by
  show (if a ≤ b then a else b) = a ∨ (if a ≤ b then a else b) = b
  split_ifs
  · exact Or.inl rfl
  · exact Or.inr rfl

theorem zero_min64 (a : UInt64) : min 0 a = 0 := if_pos UInt64.zero_le

namespace OrderSlab

/-- A live order written back as it was. -/
theorem setMeta_self {s : OrderSlab} {orderId : UInt64} {m : OrderMeta}
    (h : s.get orderId = some m) : s.setMeta orderId m = s := by
  simp only [get, setMeta] at h ⊢
  cases hs : s.index[orderId]? with
  | none => rfl
  | some slot =>
    rw [hs] at h
    obtain ⟨hlt, hm⟩ := List.getElem?_eq_some_iff.mp h
    dsimp only
    rw [← hm, List.set_getElem_self]

theorem get_setMeta_self {s : OrderSlab} {orderId : UInt64} {m₀ : OrderMeta}
    (h : s.get orderId = some m₀) (m : OrderMeta) : (s.setMeta orderId m).get orderId = some m := by
  simp only [get, setMeta] at h ⊢
  cases hs : s.index[orderId]? with
  | none =>
    rw [hs] at h
    exact absurd h (by simp)
  | some slot =>
    rw [hs] at h
    obtain ⟨hlt, _⟩ := List.getElem?_eq_some_iff.mp h
    simp [hs, hlt]

end OrderSlab

namespace HotOrderBook

theorem setHalf_half {M : Nat} (b : HotOrderBook M) (isBid : Bool) :
    b.setHalf isBid (b.half isBid) = b := by
  cases isBid <;> rfl

theorem addOrder_false {M : Nat} {b : HotOrderBook M} {e : Event} (h : (b.addOrder e).2 = false) :
    (b.addOrder e).1 = b := by
  simp only [addOrder] at h ⊢
  cases ha : (b.half (decide (e.side = 0))).addLevel (decide (e.side = 0)) e.price e.qty with
  | none => rfl
  | some h' =>
    rw [ha] at h
    dsimp only at h
    split_ifs at h

theorem deductOn_false {M : Nat} {b : HotOrderBook M} {isBid : Bool} {p q : UInt64} {release : Bool}
    (h : (b.deductOn isBid p q release).2 = false) : (b.deductOn isBid p q release).1 = b := by
  simp only [deductOn, HalfBook.deduct] at h ⊢
  cases hf : (b.half isBid).findLevel isBid p with
  | none => exact setHalf_half b isBid
  | some i =>
    rw [hf] at h
    dsimp only at h
    split_ifs at h

theorem tradeAnon_false {M : Nat} {b : HotOrderBook M} {isBid : Bool} {p q : UInt64}
    (h : (b.tradeAnon p q isBid).2 = false) : (b.tradeAnon p q isBid).1 = b := by
  simp only [tradeAnon, HalfBook.deductAnon] at h ⊢
  cases hf : (b.half isBid).findLevel isBid p with
  | none => exact setHalf_half b isBid
  | some i =>
    rw [hf] at h
    dsimp only at h
    split_ifs at h

/-- A live order whose level is gone from the ladder. -/
def Stranded {M : Nat} (b : HotOrderBook M) (m : OrderMeta) : Prop :=
  levelAt m.price (b.half (decide (m.side = 0))).ladder = none

/-- Cancelling the order by `e` empties the level it rests on, on the side `e` names. -/
def FreesLevel {M : Nat} (b : HotOrderBook M) (m : OrderMeta) (e : Event) : Prop :=
  decide (m.side = 0) = decide (e.side = 0) ∧ (e.qty = 0 ∨ m.qty ≤ e.qty) ∧
    ∃ l, levelAt m.price (b.half (decide (m.side = 0))).ladder = some l ∧ l.orderCount ≤ 1

/-- The side `e` names is full, has no level at the price of `e`, and gets none free by cancelling
the order. -/
def Crowded {M : Nat} (b : HotOrderBook M) (m : OrderMeta) (e : Event) : Prop :=
  M ≤ (b.half (decide (e.side = 0))).count.toNat ∧
    levelAt e.price (b.half (decide (e.side = 0))).ladder = none ∧ ¬ b.FreesLevel m e

/-- Where a refused event leaves no trace: no cancel and no effective trade of a stranded order, no
modify of a live order into a crowded side. -/
def Untorn {M : Nat} (b : HotOrderBook M) (e : Event) : Prop :=
  match EventType.fromU8 e.eventType with
  | some .orderCancel => ∀ m, b.orderMeta e.orderId = some m → ¬ b.Stranded m
  | some .trade => ∀ m, b.orderMeta e.orderId = some m → b.Stranded m → e.qty = 0 ∧ m.qty ≠ 0
  | some .orderModify => ∀ m, b.orderMeta e.orderId = some m → ¬ b.Crowded m e
  | _ => True

theorem deductOn_flag {M : Nat} {b : HotOrderBook M} (hg : b.GridInv) (s : OrderSlab)
    (isBid : Bool) (p q : UInt64) (release : Bool) :
    (({ b with orders := s } : HotOrderBook M).deductOn isBid p q release).2 =
      (levelAt p (b.half isBid).ladder).isSome := by
  rw [(deductOn_spec (gridInv_orders hg s) isBid p q release).2.2, Book.deductOn, view_side]
  rfl

/-- A view whose order under `orderId` changed is another view. -/
theorem view_ne_of_orders {M : Nat} {b c : HotOrderBook M} (orderId : UInt64)
    (h : c.orders.get orderId ≠ b.orders.get orderId) : c.view ≠ b.view := by
  intro hv
  have horders : c.orders.live = b.orders.live := congrArg Book.orders hv
  rw [← OrderSlab.live_get, ← OrderSlab.live_get, horders] at h
  exact h rfl

section

variable {M : Nat} {b : HotOrderBook M} {e : Event} {m : OrderMeta}

/-- What a cancel of a live order does, in one equation. -/
theorem cancelOrder_live (hid : e.orderId ≠ 0) (hm : b.orders.get e.orderId = some m) :
    ∃ s q, b.cancelOrder e = ({ b with orders := s } : HotOrderBook M).deductOn
        (decide (m.side = 0)) m.price q (decide (e.qty = 0 ∨ m.qty ≤ e.qty)) ∧
      s.get e.orderId ≠ some m := by
  simp only [cancelOrder, if_pos hid, hm]
  by_cases hfull : e.qty = 0 ∨ m.qty ≤ e.qty
  · refine ⟨(b.orders.remove e.orderId).1, m.qty, ?_, ?_⟩
    · rw [if_pos hfull, decide_eq_true hfull]
    · rw [OrderSlab.get_remove, if_pos rfl]
      simp
  · refine ⟨b.orders.setMeta e.orderId { m with qty := m.qty - e.qty }, e.qty, ?_, ?_⟩
    · rw [if_neg hfull, decide_eq_false hfull]
    · rw [OrderSlab.get_setMeta_self hm]
      intro heq
      have hqty : m.qty - e.qty = m.qty := congrArg OrderMeta.qty (Option.some.inj heq)
      have hzero : e.qty = 0 := by grind
      exact hfull (Or.inl hzero)

theorem cancelOrder_changes (hid : e.orderId ≠ 0) (hm : b.orders.get e.orderId = some m) :
    (b.cancelOrder e).1.view ≠ b.view := by
  obtain ⟨s, q, hc, hs⟩ := cancelOrder_live hid hm
  apply view_ne_of_orders e.orderId
  rw [hc, deductOn_orders, hm]
  exact hs

/-- What a trade of a live order does, in one equation. -/
theorem trade_live (hid : e.orderId ≠ 0) (hm : b.orders.get e.orderId = some m) :
    ∃ s q release, b.trade e = ({ b with orders := s } : HotOrderBook M).deductOn
        (decide (m.side = 0)) m.price q release ∧
      (if e.qty = 0 ∧ m.qty ≠ 0 then s = b.orders else s.get e.orderId ≠ some m) := by
  simp only [trade, if_neg hid, hm]
  by_cases hpart : m.qty - min e.qty m.qty ≠ 0
  · refine ⟨b.orders.setMeta e.orderId { m with qty := m.qty - min e.qty m.qty }, _, _,
      by rw [if_pos hpart], ?_⟩
    split_ifs with hnil
    · have hsame : m.qty - min e.qty m.qty = m.qty := by
        rw [hnil.1, zero_min64, UInt64.sub_zero]
      rw [hsame]
      exact OrderSlab.setMeta_self hm
    · rw [OrderSlab.get_setMeta_self hm]
      intro heq
      have hqty : m.qty - min e.qty m.qty = m.qty := congrArg OrderMeta.qty (Option.some.inj heq)
      have hmin : min e.qty m.qty = 0 := by grind
      rw [hqty] at hpart
      refine hnil ⟨?_, hpart⟩
      rcases min64_choice e.qty m.qty with h | h
      · exact h.symm.trans hmin
      · exact absurd (h.symm.trans hmin) hpart
  · refine ⟨(b.orders.remove e.orderId).1, _, _, by rw [if_neg hpart]; rfl, ?_⟩
    have hnil : ¬ (e.qty = 0 ∧ m.qty ≠ 0) := by
      intro hnil
      rw [hnil.1, zero_min64, UInt64.sub_zero] at hpart
      exact hpart hnil.2
    rw [if_neg hnil, OrderSlab.get_remove, if_pos rfl]
    simp

/-- After the cancel half of a modify the add half is refused exactly in a crowded side. -/
theorem addOrder_after_cancel (hg : b.GridInv) (hid : e.orderId ≠ 0)
    (hm : b.orders.get e.orderId = some m) :
    ((b.cancelOrder e).1.addOrder e).2 = false ↔ b.Crowded m e := by
  obtain ⟨s, q, hc, -⟩ := cancelOrder_live hid hm
  obtain ⟨hg', hv, -⟩ := deductOn_spec (gridInv_orders hg s) (decide (m.side = 0)) m.price q
    (decide (e.qty = 0 ∨ m.qty ≤ e.qty))
  have hlen (i : Bool) : (({ b with orders := s } : HotOrderBook M).view.side i).length ≤ M := by
    rw [view_side]
    exact (HalfBook.ladder_length (half_inv hg i).count_le).trans_le (half_inv hg i).count_le
  rw [hc, addOrder_flag hg', Book.addOrder_refused_iff, hv,
    Book.refused_after_deduct (view_sorted (gridInv_orders hg s)) hlen]
  simp only [Crowded, FreesLevel, Book.Drops, view_side]
  change M ≤ (b.half (decide (e.side = 0))).ladder.length ∧
    levelAt e.price (b.half (decide (e.side = 0))).ladder = none ∧
    ¬ (_ ∧ (levelAt m.price (b.half (decide (m.side = 0))).ladder).isSome = true ∧
      deducted q _ (levelAt m.price (b.half (decide (m.side = 0))).ladder) = none) ↔ _
  rw [HalfBook.ladder_length (half_inv hg _).count_le]
  refine and_congr_right fun _ => and_congr_right fun _ => not_congr (and_congr_right fun _ => ?_)
  cases hl : levelAt m.price (b.half (decide (m.side = 0))).ladder with
  | none => simp
  | some l =>
    by_cases hfull : e.qty = 0 ∨ m.qty ≤ e.qty
    · rw [decide_eq_true hfull, deducted_none_iff]
      simp [hfull]
    · rw [decide_eq_false hfull]
      simp [hfull, deducted]

end

/-- A cancel without a live order touches nothing or one level of its own price. -/
theorem cancelOrder_unknown {M : Nat} {b : HotOrderBook M} {e : Event}
    (hm : b.orders.get e.orderId = none) :
    b.cancelOrder e = (b, false) ∨ e.orderId = 0 ∧
      b.cancelOrder e = b.deductOn (decide (e.side = 0)) e.price e.qty true := by
  simp only [cancelOrder]
  split_ifs with hid
  · rw [hm]
    exact Or.inl rfl
  · exact Or.inr ⟨not_not.mp hid, rfl⟩

theorem cancelOrder_false {M : Nat} {b : HotOrderBook M} {e : Event}
    (hm : b.orders.get e.orderId = none) (h : (b.cancelOrder e).2 = false) :
    (b.cancelOrder e).1 = b := by
  rcases cancelOrder_unknown hm with hc | ⟨_, hc⟩
  · rw [hc]
  · rw [hc] at h ⊢
    exact deductOn_false h

/-- An anonymous modify that takes something off a level always finds room for it again. -/
theorem modify_unknown {M : Nat} {b : HotOrderBook M} (hg : b.GridInv) {e : Event}
    (hm : b.orders.get e.orderId = none) (h : ((b.cancelOrder e).1.addOrder e).2 = false) :
    (b.cancelOrder e).1 = b := by
  cases hflag : (b.cancelOrder e).2 with
  | false => exact cancelOrder_false hm hflag
  | true =>
    rcases cancelOrder_unknown hm with hc | ⟨_, hc⟩
    · rw [hc] at hflag
      exact absurd hflag (by simp)
    · have hlen (i : Bool) : (b.view.side i).length ≤ M := by
        rw [view_side]
        exact (HalfBook.ladder_length (half_inv hg i).count_le).trans_le (half_inv hg i).count_le
      obtain ⟨hg', hv, hf⟩ := deductOn_spec hg (decide (e.side = 0)) e.price e.qty true
      rw [hc, hf] at hflag
      rw [hc, addOrder_flag hg', Book.addOrder_refused_iff, hv,
        Book.refused_after_deduct (view_sorted hg) hlen] at h
      simp only [Book.deductOn, h.2.1] at hflag
      exact absurd hflag (by simp)

section

variable {M : Nat} {b : HotOrderBook M}

theorem cancelOrder_untorn (hg : b.GridInv) (e : Event)
    (hid : ∀ m, b.orders.get e.orderId = some m → e.orderId ≠ 0) :
    ((b.cancelOrder e).2 = false → (b.cancelOrder e).1.view = b.view) ↔
      ∀ m, b.orders.get e.orderId = some m → ¬ b.Stranded m := by
  cases hm : b.orders.get e.orderId with
  | none =>
    refine iff_of_true ?_ (fun m h => absurd h (by simp))
    intro h
    rw [cancelOrder_false hm h]
  | some m =>
    have hch := cancelOrder_changes (hid m hm) hm
    obtain ⟨s, q, hc, -⟩ := cancelOrder_live (hid m hm) hm
    have hflag : (b.cancelOrder e).2 = false ↔ b.Stranded m := by
      rw [hc, deductOn_flag hg, Option.isSome_eq_false_iff, Option.isNone_iff_eq_none, Stranded]
    rw [hflag]
    refine ⟨?_, ?_⟩
    · intro h m' hm' hst
      rw [← Option.some.inj hm'] at hst
      exact hch (h hst)
    · intro h hst
      exact absurd hst (h m rfl)

theorem modify_untorn (hg : b.GridInv) (e : Event)
    (hid : ∀ m, b.orders.get e.orderId = some m → e.orderId ≠ 0) :
    (((b.cancelOrder e).1.addOrder e).2 = false →
        ((b.cancelOrder e).1.addOrder e).1.view = b.view) ↔
      ∀ m, b.orders.get e.orderId = some m → ¬ b.Crowded m e := by
  cases hm : b.orders.get e.orderId with
  | none =>
    refine iff_of_true ?_ (fun m h => absurd h (by simp))
    intro h
    rw [addOrder_false h, modify_unknown hg hm h]
  | some m =>
    have hch := cancelOrder_changes (hid m hm) hm
    have hflag := addOrder_after_cancel hg (hid m hm) hm
    refine ⟨?_, ?_⟩
    · intro h m' hm' hcr
      rw [← Option.some.inj hm'] at hcr
      have hfalse := hflag.mpr hcr
      have hview := h hfalse
      rw [addOrder_false hfalse] at hview
      exact hch hview
    · intro h hfalse
      exact absurd (hflag.mp hfalse) (h m rfl)

theorem trade_untorn (hg : b.GridInv) (e : Event)
    (hid : ∀ m, b.orders.get e.orderId = some m → e.orderId ≠ 0) :
    ((b.trade e).2 = false → (b.trade e).1.view = b.view) ↔
      ∀ m, b.orders.get e.orderId = some m → b.Stranded m → e.qty = 0 ∧ m.qty ≠ 0 := by
  cases hm : b.orders.get e.orderId with
  | none =>
    refine iff_of_true ?_ (fun m h => absurd h (by simp))
    intro h
    by_cases hz : e.orderId = 0
    · simp only [trade, if_pos hz] at h ⊢
      rw [tradeAnon_false h]
    · simp only [trade, if_neg hz, hm]
  | some m =>
    obtain ⟨s, q, release, hc, hs⟩ := trade_live (hid m hm) hm
    have hflag : (b.trade e).2 = false ↔ b.Stranded m := by
      rw [hc, deductOn_flag hg, Option.isSome_eq_false_iff, Option.isNone_iff_eq_none, Stranded]
    refine ⟨?_, ?_⟩
    · intro h m' hm' hst
      rw [← Option.some.inj hm'] at hst ⊢
      by_contra hnil
      rw [if_neg hnil] at hs
      refine view_ne_of_orders e.orderId ?_ (h (hflag.mpr hst))
      rw [hc, deductOn_orders, hm]
      exact hs
    · intro h hfalse
      rw [if_pos (h m rfl (hflag.mp hfalse))] at hs
      rw [hc] at hfalse ⊢
      rw [deductOn_false hfalse, hs]

end

end HotOrderBook

/-- A refused event leaves ladders and live orders alone exactly where it cannot be torn: the level
of the order is there, or the modify finds a free level. -/
theorem apply_refused_unchanged_iff {M : Nat} (hM : M < 2 ^ 32) {b : HotOrderBook M}
    (hr : b.Reachable) (e : Event) :
    ((b.apply e).2 = false → (b.apply e).1.view = b.view) ↔ b.Untorn e := by
  have hg := HotOrderBook.gridInv_reachable hM hr
  have hid (m : OrderMeta) (hm : b.orders.get e.orderId = some m) : e.orderId ≠ 0 :=
    HotOrderBook.live_ne_zero hr hm
  simp only [HotOrderBook.apply, HotOrderBook.Untorn, HotOrderBook.orderMeta]
  cases EventType.fromU8 e.eventType with
  | none => exact iff_of_true (fun _ => rfl) trivial
  | some t =>
    cases t with
    | orderAdd =>
      refine iff_of_true ?_ trivial
      intro h
      rw [HotOrderBook.addOrder_false h]
    | orderCancel => exact HotOrderBook.cancelOrder_untorn hg e hid
    | orderModify => exact HotOrderBook.modify_untorn hg e hid
    | trade => exact HotOrderBook.trade_untorn hg e hid
    | bookSnapshot => exact iff_of_true (fun _ => rfl) trivial

/-- A cancel of an id that is not live is refused and leaves the book alone. -/
theorem apply_refused_unchanged_unknown :
    (((HotOrderBook.new 1 1).run [⟨0, 10, 5, 1, 1, 1, 0⟩]).apply ⟨1, 10, 5, 2, 1, 2, 0⟩).1.view =
      ((HotOrderBook.new 1 1).run [⟨0, 10, 5, 1, 1, 1, 0⟩]).view := by
  refine (apply_refused_unchanged_iff (M := 1) (by norm_num) ⟨1, _, rfl⟩ _).mpr ?_ (by decide)
  intro m hm
  have hnone : ((HotOrderBook.new 1 1).run [⟨0, 10, 5, 1, 1, 1, 0⟩]).orderMeta 2 = none := by decide
  exact absurd (hnone.symm.trans hm) (by simp)

/-- A modify of order 1 onto the full other side is refused and takes the order off the book. -/
theorem apply_refused_loses_order :
    (((HotOrderBook.new 1 1).run [⟨0, 10, 5, 1, 1, 1, 0⟩, ⟨1, 20, 5, 2, 1, 1, 1⟩]).apply
      ⟨2, 21, 5, 1, 1, 3, 1⟩).2 = false ∧
    (((HotOrderBook.new 1 1).run [⟨0, 10, 5, 1, 1, 1, 0⟩, ⟨1, 20, 5, 2, 1, 1, 1⟩]).apply
      ⟨2, 21, 5, 1, 1, 3, 1⟩).1.view ≠
        ((HotOrderBook.new 1 1).run [⟨0, 10, 5, 1, 1, 1, 0⟩, ⟨1, 20, 5, 2, 1, 1, 1⟩]).view :=
  ⟨by decide, HotOrderBook.view_ne_of_orders 1 (by decide)⟩

end Flowlab.Core
