import Flowlab.Core.OrderBook
import Flowlab.Core.Depth

namespace Flowlab.Core

open Std Framework

/-! A modify against a full delete followed by an add. -/

def Event.asModify (e : Event) : Event := { e with eventType := 3 }

def Event.asDelete (e : Event) : Event := { e with eventType := 2, qty := 0 }

def Event.asAdd (e : Event) : Event := { e with eventType := 1 }

/-- Two ways of altering one place are told apart after a common later alteration exactly when
they are told apart at that place. -/
theorem alterAt_alterAt_eq_iff (F : Depth) (a c : Bool × UInt64)
    (f f' g : Option Level → Option Level) :
    alterAt (alterAt F a f) c g = alterAt (alterAt F a f') c g ↔
      if c = a then g (f (F a)) = g (f' (F a)) else f (F a) = f' (F a) := by
  by_cases hca : c = a
  · subst hca
    simp only [alterAt, Function.update_self, Function.update_idem, if_true]
    constructor
    · intro h
      simpa using congrFun h c
    · intro h
      rw [h]
  · rw [if_neg hca]
    simp only [alterAt, Function.update_of_ne hca]
    constructor
    · intro h
      have hat := congrFun h a
      rwa [Function.update_of_ne (Ne.symm hca), Function.update_self,
        Function.update_of_ne (Ne.symm hca), Function.update_self] at hat
    · intro h
      rw [h]

/-- A partial deduction keeps the level, a release drops an order or the level. -/
theorem deducted_ne (l : Level) (q m : UInt64) :
    deducted q false (some l) ≠ deducted m true (some l) := by
  simp only [deducted, Bool.false_eq_true, if_false, if_true]
  split_ifs with hz
  · simp
  · intro h
    have hc := congrArg Level.orderCount (Option.some.inj h)
    have hn := congrArg UInt32.toNat hc
    dsimp only at hn
    rw [satSub32_toNat] at hn
    have h1 : (1 : UInt32).toNat = 1 := rfl
    have hpos : (satSub32 l.orderCount 1).toNat ≠ 0 := fun h0 => hz (UInt32.toNat_inj.mp h0)
    rw [satSub32_toNat] at hpos
    omega

theorem added_deducted_eq_iff {l : Level} {p : UInt64} (hl : l.price = p) (q m : UInt64) :
    added p q (deducted q false (some l)) = added p q (deducted m true (some l)) ↔
      l.orderCount = 0 ∧ l.totalQty ≤ q := by
  have h1 : (1 : UInt32).toNat = 1 := rfl
  have hsat : satSub64 l.totalQty q = 0 ↔ l.totalQty ≤ q := by
    rw [← UInt64.toNat_inj, satSub64_toNat, UInt64.le_iff_toNat_le, UInt64.toNat_zero]
    omega
  simp only [deducted, Bool.false_eq_true, if_false, if_true]
  split_ifs with hz
  · have hle : l.orderCount.toNat ≤ 1 := by
      have := congrArg UInt32.toNat hz
      rw [satSub32_toNat, UInt32.toNat_zero] at this
      omega
    simp only [added, Option.some.injEq, Level.mk.injEq, hl, true_and]
    rw [← hsat, and_comm]
    constructor
    · intro hsame
      obtain ⟨hc, hq⟩ := hsame
      refine ⟨by simpa using hc, ?_⟩
      have := congrArg (· - q) hq
      simpa using this
    · intro hsame
      obtain ⟨hc, hq⟩ := hsame
      rw [hc, hq]
      exact ⟨rfl, by simp⟩
  · have hpos : (satSub32 l.orderCount 1).toNat ≠ 0 := fun h0 => hz (UInt32.toNat_inj.mp h0)
    rw [satSub32_toNat] at hpos
    simp only [added, Option.some.injEq, Level.mk.injEq, true_and]
    constructor
    · intro hsame
      obtain ⟨_, hc⟩ := hsame
      have hc' : l.orderCount = satSub32 l.orderCount 1 := by
        have := congrArg (· - 1) hc
        simpa using this
      have hn := congrArg UInt32.toNat hc'
      rw [satSub32_toNat] at hn
      omega
    · intro hsame
      obtain ⟨hc, _⟩ := hsame
      rw [hc, UInt32.toNat_zero] at hpos
      omega

/-- When a modify of the order `m` to `qty` at `price` leaves nothing of it behind; `level` is what
stands at the old price and `sameSide` says whether the order keeps its side. -/
def NoResidue (m : OrderMeta) (price qty : UInt64) (sameSide : Bool) (level : Option Level) : Prop :=
  qty = 0 ∨ m.qty ≤ qty ∨ level = none ∨
    ∃ l, level = some l ∧ l.orderCount = 0 ∧ l.totalQty ≤ qty ∧ price = m.price ∧ sameSide = true

/-- The two ways through the levels agree exactly when no residue is left. -/
theorem alterAt_noResidue_iff {F : Depth} (hF : ∀ a l, F a = some l → l.price = a.2)
    (m : OrderMeta) (price qty : UInt64) (isBid : Bool)
    (hpart : ¬ (qty = 0 ∨ m.qty ≤ qty)) :
    alterAt (alterAt F (decide (m.side = 0), m.price) (deducted qty false)) (isBid, price)
        (added price qty) =
      alterAt (alterAt F (decide (m.side = 0), m.price) (deducted m.qty true)) (isBid, price)
        (added price qty) ↔
    NoResidue m price qty (decide (m.side = 0) == isBid) (F (decide (m.side = 0), m.price)) := by
  rw [alterAt_alterAt_eq_iff]
  obtain ⟨h0, hle⟩ := not_or.mp hpart
  simp only [NoResidue, h0, hle, false_or]
  cases hl : F (decide (m.side = 0), m.price) with
  | none => simp [deducted]
  | some l =>
    have hp := hF _ l hl
    dsimp only at hp
    have hplace : (isBid, price) = (decide (m.side = 0), m.price) ↔
        price = m.price ∧ (decide (m.side = 0) == isBid) = true := by
      rw [Prod.mk.injEq, beq_iff_eq]
      tauto
    by_cases hc : (isBid, price) = (decide (m.side = 0), m.price)
    · obtain ⟨hpr, hs⟩ := hplace.mp hc
      rw [if_pos hc, added_deducted_eq_iff (hp.trans hpr.symm)]
      simp [hpr, hs]
    · rw [if_neg hc]
      simp only [deducted_ne, false_iff]
      intro hsame
      rcases hsame with h | ⟨l', _, _, _, hpr, hs⟩
      · exact absurd h (by simp)
      · exact hc (hplace.mpr ⟨hpr, hs⟩)

namespace HotOrderBook

theorem view_sorted {M : Nat} {b : HotOrderBook M} (hg : b.GridInv) : b.view.Sorted :=
  ⟨hg.bids.sorted, hg.asks.sorted⟩

theorem depth_deductOn {M : Nat} {b : HotOrderBook M} (hg : b.GridInv) (isBid : Bool)
    (price qty : UInt64) (release : Bool) :
    (b.deductOn isBid price qty release).1.view.depth =
      alterAt b.view.depth (isBid, price) (deducted qty release) := by
  rw [(deductOn_spec hg isBid price qty release).2.1]
  exact Book.depth_alterSide (view_sorted hg) isBid (deducted_files price qty release)

theorem depth_addOrder {M : Nat} {b : HotOrderBook M} (hg : b.GridInv) {e : Event}
    (hroom : (b.half (decide (e.side = 0))).ladder.length < M) :
    (b.addOrder e).1.view.depth =
      alterAt b.view.depth (decide (e.side = 0), e.price) (added e.price e.qty) := by
  have hspec := HalfBook.addLevel_spec (half_inv hg (decide (e.side = 0))) e.price e.qty
  rw [← Book.depth_alterSide (view_sorted hg) _ (added_files e.price e.qty)]
  simp only [addOrder]
  cases ha : (b.half (decide (e.side = 0))).addLevel (decide (e.side = 0)) e.price e.qty with
  | none => exact absurd (hspec.1 ha).2 (by omega)
  | some h =>
    rw [← view_setHalf b _ e.price _ h (hspec.2 h ha).2.1]
    dsimp only
    split_ifs <;> rfl

end HotOrderBook

/-- Deductions never lengthen a ladder. -/
theorem HalfBook.deduct_count_le {M : Nat} (h : HalfBook M) (isBid : Bool) (price qty : UInt64)
    (release : Bool) : (h.deduct isBid price qty release).1.count.toNat ≤ h.count.toNat := by
  have hrem (i : Nat) (l : Level) : ((h.setCell i l).removeLevel i).count.toNat ≤ h.count.toNat := by
    change (UInt32.ofNat (h.count.toNat - 1)).toNat ≤ h.count.toNat
    rw [UInt32.toNat_ofNat']
    exact (Nat.mod_le _ _).trans (Nat.sub_le _ _)
  simp only [deduct]
  cases h.findLevel isBid price with
  | none => exact Nat.le_refl _
  | some i =>
    dsimp only
    split_ifs
    · exact hrem i _
    · exact Nat.le_refl _
    · exact Nat.le_refl _

namespace OrderSlab

/-- Rewriting an order twice and replacing it leave the same slab: the released slot is the one
taken again. -/
theorem setMeta_insert {s : OrderSlab} {orderId : UInt64} {m₀ : OrderMeta}
    (h : s.get orderId = some m₀) (m m' : OrderMeta) :
    (s.setMeta orderId m).insert orderId m' = (s.remove orderId).1.insert orderId m' := by
  cases hs : s.index[orderId]? with
  | none => simp [get, hs] at h
  | some slot =>
    have hgone : (s.index.erase orderId)[orderId]? = none := by
      rw [FiniteMap.get_erase, if_pos rfl]
    simp only [setMeta, remove, insert, hs, hgone, List.getLast?_concat, List.dropLast_concat,
      List.set_set, FiniteMap.insert_erase_self s.index orderId slot hs]

theorem index_zero_insert {s : OrderSlab} (h : s.index[(0 : UInt64)]? = none) {orderId : UInt64}
    (hid : orderId ≠ 0) (m : OrderMeta) : (s.insert orderId m).index[(0 : UInt64)]? = none := by
  simp only [insert]
  cases s.index[orderId]? with
  | some slot => exact h
  | none =>
    cases s.freeList.getLast? with
    | some slot =>
      dsimp only
      rw [FiniteMap.get_insert, if_neg (Ne.symm hid), h]
    | none =>
      dsimp only
      rw [FiniteMap.get_insert, if_neg (Ne.symm hid), h]

theorem index_zero_remove {s : OrderSlab} (h : s.index[(0 : UInt64)]? = none) (orderId : UInt64) :
    (s.remove orderId).1.index[(0 : UInt64)]? = none := by
  simp only [remove]
  cases s.index[orderId]? with
  | none => exact h
  | some slot =>
    dsimp only
    rw [FiniteMap.get_erase, h]
    split_ifs <;> rfl

theorem index_setMeta (s : OrderSlab) (orderId : UInt64) (m : OrderMeta) :
    (s.setMeta orderId m).index = s.index := by
  simp only [setMeta]
  split <;> rfl

end OrderSlab

namespace HotOrderBook

/-- Id 0 is never filed. -/
def ZeroFree {M : Nat} (b : HotOrderBook M) : Prop := b.orders.index[(0 : UInt64)]? = none

theorem zeroFree_addOrder {M : Nat} {b : HotOrderBook M} (h : b.ZeroFree) (e : Event) :
    (b.addOrder e).1.ZeroFree := by
  apply addOrder_rule h
  · intro g _
    rw [ZeroFree, setHalf_orders]
    exact h
  · intro c _ hid hc
    exact OrderSlab.index_zero_insert hc hid _

theorem kept_zeroFree {M : Nat} : Kept (ZeroFree (M := M)) where
  remove _ orderId h := OrderSlab.index_zero_remove h orderId
  setMeta _ orderId m h := by
    rw [ZeroFree, OrderSlab.index_setMeta]
    exact h
  deductOn b isBid price qty release h := by
    rw [ZeroFree, deductOn_orders]
    exact h
  tradeAnon b price qty isBid h := by
    rw [ZeroFree, HotOrderBook.tradeAnon, setHalf_orders]
    exact h

theorem zeroFree_apply {M : Nat} {b : HotOrderBook M} (h : b.ZeroFree) (e : Event) :
    (b.apply e).1.ZeroFree :=
  kept_zeroFree.apply (fun _ hc => hc) (fun _ hc => zeroFree_addOrder hc e) h

theorem zeroFree_run {M : Nat} {b : HotOrderBook M} (h : b.ZeroFree) (es : List Event) :
    (b.run es).ZeroFree := by
  induction es generalizing b with
  | nil => exact h
  | cons e es ih => exact ih (zeroFree_apply h e)

theorem live_ne_zero {M : Nat} {b : HotOrderBook M} (hr : b.Reachable) {orderId : UInt64}
    {m : OrderMeta} (h : b.orderMeta orderId = some m) : orderId ≠ 0 := by
  obtain ⟨instrumentId, es, rfl⟩ := hr
  rintro rfl
  have hz : ((new M instrumentId).run es).ZeroFree :=
    zeroFree_run (by simp [ZeroFree, new, OrderSlab.empty]) es
  rw [orderMeta, OrderSlab.get, hz] at h
  exact absurd h (by simp)

theorem count_deductOn_le {M : Nat} (b : HotOrderBook M) (i isBid : Bool) (price qty : UInt64)
    (release : Bool) : ((b.deductOn isBid price qty release).1.half i).count.toNat ≤
      (b.half i).count.toNat := by
  have hle := HalfBook.deduct_count_le (b.half isBid) isBid price qty release
  cases i <;> cases isBid <;> first | exact hle | exact Nat.le_refl _

/-- A deduction and an add, with whatever the deduction made of the slab. -/
theorem deductOn_addOrder {M : Nat} {b : HotOrderBook M} (hg : b.GridInv) (s : OrderSlab)
    (isBid : Bool) (price qty : UInt64) (release : Bool) {e : Event} (hid : e.orderId ≠ 0)
    (hroom : (b.half (decide (e.side = 0))).count.toNat < M) {c : HotOrderBook M}
    (hc : c = ((({ b with orders := s } : HotOrderBook M).deductOn isBid price qty
      release).1.addOrder e).1) :
    c.GridInv ∧ c.orders = s.insert e.orderId ⟨e.price, e.qty, e.side⟩ ∧
    c.view.depth = alterAt (alterAt b.view.depth (isBid, price) (deducted qty release))
      (decide (e.side = 0), e.price) (added e.price e.qty) := by
  have hg' := (deductOn_spec (gridInv_orders hg s) isBid price qty release).1
  have hlen : (((({ b with orders := s } : HotOrderBook M).deductOn isBid price qty
      release).1).half (decide (e.side = 0))).ladder.length < M := by
    rw [HalfBook.ladder_length (half_inv hg' _).count_le]
    exact (count_deductOn_le _ _ isBid price qty release).trans_lt hroom
  refine ⟨hc ▸ gridInv_addOrder hg' e, ?_, ?_⟩
  · rw [hc, (addOrder_orders hg' hlen hid).1, deductOn_orders]
  · rw [hc, depth_addOrder hg' hlen, depth_deductOn (gridInv_orders hg s)]
    rfl

/-- A modify of a live order replaces it exactly when it leaves no residue. -/
theorem modify_replaces_iff {M : Nat} (hM : M < 2 ^ 32) {b : HotOrderBook M} (hr : b.Reachable)
    (e : Event) {m : OrderMeta} (hlive : b.orderMeta e.orderId = some m)
    (hroom : (b.half (decide (e.side = 0))).count.toNat < M) :
    (b.apply e.asModify).1.view = ((b.apply e.asDelete).1.apply e.asAdd).1.view ↔
      NoResidue m e.price e.qty (decide (m.side = 0) == decide (e.side = 0))
        (levelAt m.price (b.half (decide (m.side = 0))).ladder) := by
  have hid := live_ne_zero hr hlive
  have hg := gridInv_reachable hM hr
  have hget : b.orders.get e.orderId = some m := hlive
  have hdel : (b.apply e.asDelete).1 = ({ b with orders := (b.orders.remove e.orderId).1 }.deductOn
      (decide (m.side = 0)) m.price m.qty true).1 := by
    change (b.cancelOrder e.asDelete).1 = _
    simp only [cancelOrder, Event.asDelete, hget, if_pos hid, true_or, if_true]
  have hmod : (b.apply e.asModify).1 = ((b.cancelOrder e).1.addOrder e).1 := rfl
  have hadd (c : HotOrderBook M) : (c.apply e.asAdd).1 = (c.addOrder e).1 := rfl
  rw [hmod, hadd, hdel]
  by_cases hfull : e.qty = 0 ∨ m.qty ≤ e.qty
  · have hcan : b.cancelOrder e = { b with orders := (b.orders.remove e.orderId).1 }.deductOn
        (decide (m.side = 0)) m.price m.qty true := by
      simp only [cancelOrder, hget, if_pos hid, if_pos hfull]
    rw [hcan]
    refine iff_of_true rfl ?_
    rcases hfull with h | h
    · exact Or.inl h
    · exact Or.inr (Or.inl h)
  · have hcan : b.cancelOrder e =
        { b with orders := b.orders.setMeta e.orderId { m with qty := m.qty - e.qty } }.deductOn
          (decide (m.side = 0)) m.price e.qty false := by
      simp only [cancelOrder, hget, if_pos hid, if_neg hfull]
    rw [hcan]
    obtain ⟨hg₁, ho₁, hd₁⟩ := deductOn_addOrder hg
      (b.orders.setMeta e.orderId { m with qty := m.qty - e.qty }) (decide (m.side = 0)) m.price
      e.qty false hid hroom rfl
    obtain ⟨hg₂, ho₂, hd₂⟩ := deductOn_addOrder hg (b.orders.remove e.orderId).1
      (decide (m.side = 0)) m.price m.qty true hid hroom rfl
    have hslab := OrderSlab.setMeta_insert hget { m with qty := m.qty - e.qty }
      ⟨e.price, e.qty, e.side⟩
    rw [← ho₁, ← ho₂] at hslab
    have hkey := alterAt_noResidue_iff (F := b.view.depth) (fun _ _ h => Book.depth_files h) m
      e.price e.qty (decide (e.side = 0)) hfull
    rw [← hd₁, ← hd₂, Book.depth, view_side] at hkey
    refine Iff.trans ⟨fun h => congrArg Book.depth h, fun h => ?_⟩ hkey
    obtain ⟨hb, ha⟩ := Book.depth_inj (view_sorted hg₁) (view_sorted hg₂) h
    exact Book.ext hb ha (congrArg OrderSlab.live hslab)

end HotOrderBook

namespace OrderBook

/-- Reached from the empty book by some finite event sequence. -/
def Reachable (b : OrderBook) : Prop := ∃ instrumentId es, b = (new instrumentId).run es

def depth (b : OrderBook) : Depth := fun a => (b.levels (if a.1 then .bid else .ask))[a.2]?

theorem depth_side (b : OrderBook) (s : Side) (p : UInt64) :
    b.depth (s.isBid, p) = (b.levels s)[p]? := by
  cases s <;> rfl

theorem depth_setLevels (b : OrderBook) (s : Side) (p : UInt64) {f : Option Level → Option Level}
    {t : ExtTreeMap UInt64 Level}
    (ht : ∀ j : UInt64, t[j]? = if j = p then f (b.levels s)[p]? else (b.levels s)[j]?) :
    (b.setLevels s t).depth = alterAt b.depth (s.isBid, p) f := by
  funext a
  obtain ⟨i, j⟩ := a
  by_cases hi : i = s.isBid
  · subst hi
    rw [depth_side, levels_setLevels, if_pos rfl, ht j]
    split_ifs with hj
    · rw [hj, alterAt, Function.update_self, depth_side]
    · rw [alterAt, Function.update_of_ne (by simp [hj]), depth_side]
  · rw [alterAt, Function.update_of_ne (by simp [hi])]
    cases i <;> cases s <;> first | rfl | exact absurd rfl hi

theorem depth_addOrder (b : OrderBook) {e : Event} {s : Side} (hs : Side.fromU8 e.side = some s) :
    (b.addOrder e).1.depth = alterAt b.depth (s.isBid, e.price) (added e.price e.qty) := by
  simp only [addOrder, hs]
  exact depth_setLevels b s e.price (insert_added (b.levels s) e.price e.qty rfl)

theorem depth_deduct (b : OrderBook) (s : Side) (p q : UInt64) (release : Bool) :
    (b.deduct s p q release).depth = alterAt b.depth (s.isBid, p) (deducted q release) := by
  obtain ⟨t, he, ht⟩ := deduct_levels b s p q release
  rw [he]
  exact depth_setLevels b s p ht

theorem depth_inj {b c : OrderBook} (h : b.depth = c.depth) : b.bids = c.bids ∧ b.asks = c.asks :=
  ⟨ExtTreeMap.ext_getElem? (fun p => congrFun h (true, p)),
    ExtTreeMap.ext_getElem? (fun p => congrFun h (false, p))⟩

/-- Every level carries the price it is filed under. -/
def Filed (b : OrderBook) : Prop := ∀ a l, b.depth a = some l → l.price = a.2

theorem filed_alterAt {b c : OrderBook} (h : b.Filed) {a : Bool × UInt64}
    {f : Option Level → Option Level} (hf : KeyedList.FilesUnder Level.price a.2 f)
    (hc : c.depth = alterAt b.depth a f) : c.Filed := by
  intro x l hl
  rw [hc, alterAt] at hl
  by_cases hx : x = a
  · subst hx
    rw [Function.update_self] at hl
    exact hf _ l (fun c hc => h x c hc) hl
  · rw [Function.update_of_ne hx] at hl
    exact h x l hl

theorem filed_addOrder {b : OrderBook} (h : b.Filed) (e : Event) : (b.addOrder e).1.Filed := by
  cases hs : Side.fromU8 e.side with
  | none =>
    simp only [addOrder, hs]
    exact h
  | some s => exact filed_alterAt h (added_files e.price e.qty) (depth_addOrder b hs)

theorem filed_deduct {b : OrderBook} (h : b.Filed) (t : ExtTreeMap UInt64 Order) (s : Side)
    (p q : UInt64) (release : Bool) :
    (({ b with orders := t } : OrderBook).deduct s p q release).Filed :=
  filed_alterAt (b := { b with orders := t }) h (deducted_files p q release)
    (depth_deduct _ s p q release)

theorem filed_cancelOrder {b : OrderBook} (h : b.Filed) (e : Event) : (b.cancelOrder e).1.Filed := by
  simp only [cancelOrder]
  cases b.orders[e.orderId]? with
  | none => exact h
  | some o =>
    dsimp only
    split_ifs
    · exact filed_deduct h _ _ _ _ _
    · exact filed_deduct h _ _ _ _ _

theorem filed_executeTrade {b : OrderBook} (h : b.Filed) (e : Event) :
    (b.executeTrade e).1.Filed := by
  simp only [executeTrade]
  cases b.orders[e.orderId]? with
  | none => exact h
  | some o =>
    dsimp only
    split_ifs
    · exact filed_deduct h b.orders _ _ _ _
    · exact filed_deduct h b.orders _ _ _ _

theorem filed_apply {b : OrderBook} (h : b.Filed) (e : Event) : (b.apply e).1.Filed := by
  simp only [apply]
  cases EventType.fromU8 e.eventType with
  | none => exact h
  | some t =>
    cases t with
    | orderAdd => exact filed_addOrder h e
    | orderCancel => exact filed_cancelOrder h e
    | orderModify => exact filed_addOrder (filed_cancelOrder h e) e
    | trade => exact filed_executeTrade h e
    | bookSnapshot => exact h

theorem filed_run {b : OrderBook} (h : b.Filed) (es : List Event) : (b.run es).Filed := by
  induction es generalizing b with
  | nil => exact h
  | cons e es ih => exact ih (filed_apply h e)

theorem filed_reachable {b : OrderBook} (hr : b.Reachable) : b.Filed := by
  obtain ⟨instrumentId, es, rfl⟩ := hr
  apply filed_run
  intro a l h
  obtain ⟨i, p⟩ := a
  cases i <;> simp [depth, new, levels] at h

/-- A deduction and an add, with whatever the deduction made of the orders. -/
theorem deduct_addOrder (b : OrderBook) (t : ExtTreeMap UInt64 Order) (s : Side) (p q : UInt64)
    (release : Bool) {e : Event} {r : Side} (hr : Side.fromU8 e.side = some r) {c : OrderBook}
    (hc : c = ((({ b with orders := t } : OrderBook).deduct s p q release).addOrder e).1) :
    c.orders = t.insert e.orderId ⟨e.orderId, e.price, e.qty, r⟩ ∧
    c.depth = alterAt (alterAt b.depth (s.isBid, p) (deducted q release)) (r.isBid, e.price)
      (added e.price e.qty) := by
  constructor
  · rw [hc]
    simp only [addOrder, hr, setLevels_orders, deduct_orders_keep]
  · rw [hc, depth_addOrder _ hr, depth_deduct]
    rfl

theorem cancelOrder_full {b : OrderBook} {e : Event} {o : Order}
    (hlive : b.orders[e.orderId]? = some o) (hfull : e.qty = 0 ∨ o.qty ≤ e.qty) :
    (b.cancelOrder e).1 =
      { b with orders := b.orders.erase e.orderId }.deduct o.side o.price o.qty true := by
  simp only [cancelOrder, hlive, if_pos hfull]

theorem cancelOrder_part {b : OrderBook} {e : Event} {o : Order}
    (hlive : b.orders[e.orderId]? = some o) (hpart : ¬ (e.qty = 0 ∨ o.qty ≤ e.qty)) :
    (b.cancelOrder e).1 =
      { b with orders := b.orders.insert e.orderId { o with qty := o.qty - e.qty } }.deduct
        o.side o.price e.qty false := by
  simp only [cancelOrder, hlive, if_neg hpart]

/-- Deleting an order and adding it again puts the new one where a cut order was replaced. -/
theorem orders_replaced (t : ExtTreeMap UInt64 Order) (i : UInt64) (o o' : Order) :
    (t.insert i o).insert i o' = (t.erase i).insert i o' := by
  apply ExtTreeMap.ext_getElem?
  intro j
  simp only [FiniteMap.get_insert, FiniteMap.get_erase]
  split_ifs <;> rfl

theorem modify_replaces_iff {b : OrderBook} (hr : b.Reachable) {e : Event}
    (hside : e.side = 0 ∨ e.side = 1) {o : Order} (hlive : b.orders[e.orderId]? = some o) :
    ((b.apply e.asModify).1.bids = ((b.apply e.asDelete).1.apply e.asAdd).1.bids ∧
      (b.apply e.asModify).1.asks = ((b.apply e.asDelete).1.apply e.asAdd).1.asks ∧
      (b.apply e.asModify).1.orders = ((b.apply e.asDelete).1.apply e.asAdd).1.orders) ↔
      NoResidue o.toMeta e.price e.qty (decide (o.toMeta.side = 0) == decide (e.side = 0))
        (b.levels o.side)[o.price]? := by
  obtain ⟨r, hfrom⟩ : ∃ r, Side.fromU8 e.side = some r := by
    rcases hside with h | h <;> exact ⟨_, by rw [h]; rfl⟩
  have hbid : decide (e.side = 0) = r.isBid := by
    rw [Side.toU8_of_fromU8 hfrom, Side.decide_toU8]
  have hold : decide (o.toMeta.side = 0) = o.side.isBid := Side.decide_toU8 o.side
  have hdel : (b.apply e.asDelete).1 = ({ b with orders := b.orders.erase e.orderId }.deduct
      o.side o.price o.qty true) := by
    exact cancelOrder_full (e := e.asDelete) hlive (Or.inl rfl)
  have hmod : (b.apply e.asModify).1 = ((b.cancelOrder e).1.addOrder e).1 := rfl
  have hadd (c : OrderBook) : (c.apply e.asAdd).1 = (c.addOrder e).1 := rfl
  rw [hmod, hadd, hdel]
  by_cases hfull : e.qty = 0 ∨ o.qty ≤ e.qty
  · rw [cancelOrder_full hlive hfull]
    refine iff_of_true ⟨rfl, rfl, rfl⟩ ?_
    rcases hfull with h | h
    · exact Or.inl h
    · exact Or.inr (Or.inl h)
  · rw [cancelOrder_part hlive hfull]
    obtain ⟨ho₁, hd₁⟩ := deduct_addOrder b
      (b.orders.insert e.orderId { o with qty := o.qty - e.qty }) o.side o.price e.qty false
      hfrom rfl
    obtain ⟨ho₂, hd₂⟩ := deduct_addOrder b (b.orders.erase e.orderId) o.side o.price o.qty true
      hfrom rfl
    have horders := orders_replaced b.orders e.orderId { o with qty := o.qty - e.qty }
      ⟨e.orderId, e.price, e.qty, r⟩
    rw [← ho₁, ← ho₂] at horders
    have hkey := alterAt_noResidue_iff (filed_reachable hr) o.toMeta e.price e.qty
      (decide (e.side = 0)) hfull
    rw [hbid, hold] at hkey ⊢
    have hd₁' : _ = alterAt (alterAt b.depth (o.side.isBid, o.toMeta.price) (deducted e.qty false))
      (r.isBid, e.price) (added e.price e.qty) := hd₁
    have hd₂' : _ = alterAt (alterAt b.depth (o.side.isBid, o.toMeta.price)
      (deducted o.toMeta.qty true)) (r.isBid, e.price) (added e.price e.qty) := hd₂
    rw [← hd₁', ← hd₂', depth_side] at hkey
    refine Iff.trans ⟨fun h => ?_, fun h => ?_⟩ hkey
    · unfold depth levels
      rw [h.1, h.2.1]
    · obtain ⟨hb, ha⟩ := depth_inj h
      exact ⟨hb, ha, horders⟩

end OrderBook

/-- In every reachable book with a level to spare, a modify leaves what a delete and an add leave
exactly when the cancel inside it takes the whole order, or has no level to take from, or finds a
level whose wrapped order count is 0 and whose quantity it uses up at the place of the new order. -/
theorem modify_replaces_iff_noResidue {M : Nat} (hM : M < 2 ^ 32) (b : HotOrderBook M) (c : OrderBook)
    (e : Event) (hb : b.Reachable) (hc : c.Reachable) (hside : e.side = 0 ∨ e.side = 1) :
    (∀ m, b.orderMeta e.orderId = some m → (b.half (decide (e.side = 0))).count.toNat < M →
      ((b.apply e.asModify).1.view = ((b.apply e.asDelete).1.apply e.asAdd).1.view ↔
        NoResidue m e.price e.qty (decide (m.side = 0) == decide (e.side = 0))
          (levelAt m.price (b.half (decide (m.side = 0))).ladder))) ∧
    (∀ o, c.orders[e.orderId]? = some o →
      (((c.apply e.asModify).1.bids = ((c.apply e.asDelete).1.apply e.asAdd).1.bids ∧
        (c.apply e.asModify).1.asks = ((c.apply e.asDelete).1.apply e.asAdd).1.asks ∧
        (c.apply e.asModify).1.orders = ((c.apply e.asDelete).1.apply e.asAdd).1.orders) ↔
        NoResidue o.toMeta e.price e.qty (decide (o.toMeta.side = 0) == decide (e.side = 0))
          (c.levels o.side)[o.price]?)) := by
  constructor
  · intro m hlive hroom
    exact HotOrderBook.modify_replaces_iff hM hb e hlive hroom
  · intro o hlive
    exact OrderBook.modify_replaces_iff hc hside hlive

/-- Order 7 rests with 10 at 100; a modify to 10 at 101 replaces it in both books. -/
theorem modify_replaces_same_qty :
    (((HotOrderBook.new 4 1).run [⟨0, 100, 10, 7, 1, 1, 0⟩]).apply ⟨1, 101, 10, 7, 1, 3, 0⟩).1.view =
      ((((HotOrderBook.new 4 1).run [⟨0, 100, 10, 7, 1, 1, 0⟩]).apply
        ⟨1, 101, 0, 7, 1, 2, 0⟩).1.apply ⟨1, 101, 10, 7, 1, 1, 0⟩).1.view ∧
    (((OrderBook.new 1).run [⟨0, 100, 10, 7, 1, 1, 0⟩]).apply ⟨1, 101, 10, 7, 1, 3, 0⟩).1.bids =
      ((((OrderBook.new 1).run [⟨0, 100, 10, 7, 1, 1, 0⟩]).apply
        ⟨1, 101, 0, 7, 1, 2, 0⟩).1.apply ⟨1, 101, 10, 7, 1, 1, 0⟩).1.bids := by
  obtain ⟨hhot, href⟩ := modify_replaces_iff_noResidue (M := 4) (by norm_num)
    ((HotOrderBook.new 4 1).run [⟨0, 100, 10, 7, 1, 1, 0⟩])
    ((OrderBook.new 1).run [⟨0, 100, 10, 7, 1, 1, 0⟩]) ⟨1, 101, 10, 7, 1, 3, 0⟩ ⟨1, _, rfl⟩
    ⟨1, _, rfl⟩ (Or.inl rfl)
  constructor
  · exact (hhot ⟨100, 10, 0⟩ (by decide) (by decide)).mpr (Or.inr (Or.inl (by decide)))
  · exact ((href ⟨7, 100, 10, .bid⟩ (by decide)).mpr (Or.inr (Or.inl (by decide)))).1

/-- A modify to 4 at 101 leaves 6 of the old order at 100, in both books. -/
theorem modify_leaves_residue :
    ((HotOrderBook.new 4 1).run [⟨0, 100, 10, 7, 1, 1, 0⟩]).orderMeta 7 = some ⟨100, 10, 0⟩ ∧
    ((HotOrderBook.new 4 1).run [⟨0, 100, 10, 7, 1, 1, 0⟩]).bids.count.toNat < 4 ∧
    (((HotOrderBook.new 4 1).run [⟨0, 100, 10, 7, 1, 1, 0⟩]).apply
        ⟨1, 101, 4, 7, 1, 3, 0⟩).1.bids.ladder ≠
      ((((HotOrderBook.new 4 1).run [⟨0, 100, 10, 7, 1, 1, 0⟩]).apply
        ⟨1, 101, 0, 7, 1, 2, 0⟩).1.apply ⟨1, 101, 4, 7, 1, 1, 0⟩).1.bids.ladder ∧
    (((OrderBook.new 1).run [⟨0, 100, 10, 7, 1, 1, 0⟩]).apply
        ⟨1, 101, 4, 7, 1, 3, 0⟩).1.bids.toList ≠
      ((((OrderBook.new 1).run [⟨0, 100, 10, 7, 1, 1, 0⟩]).apply
        ⟨1, 101, 0, 7, 1, 2, 0⟩).1.apply ⟨1, 101, 4, 7, 1, 1, 0⟩).1.bids.toList := by
  decide

example : (((HotOrderBook.new 4 1).run [⟨0, 100, 10, 7, 1, 1, 0⟩]).apply
    ⟨1, 101, 4, 7, 1, 3, 0⟩).1.bids.ladder = [⟨101, 4, 1⟩, ⟨100, 6, 1⟩] := by decide

end Flowlab.Core
