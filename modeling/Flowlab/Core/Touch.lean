import Flowlab.Core.OrderBook
import Flowlab.Core.Ledger

namespace Flowlab.Core

open Std Framework

/-- What a cancel of `qty` does to a resting order: what remains of it, what its level loses, and
whether it leaves. -/
def cancelled (qty : UInt64) (m : OrderMeta) : Option OrderMeta × UInt64 × Bool :=
  if qty = 0 ∨ m.qty ≤ qty then (none, m.qty, true)
  else (some { m with qty := m.qty - qty }, qty, false)

/-- What a trade of `qty` does to it. -/
def filled (qty : UInt64) (m : OrderMeta) : Option OrderMeta × UInt64 × Bool :=
  if m.qty - min qty m.qty ≠ 0 then
    (some { m with qty := m.qty - min qty m.qty }, min qty m.qty, false)
  else (none, min qty m.qty, true)

namespace Book

/-- An add that is not refused. -/
def place (k : Book) (e : Event) : Book :=
  let m : OrderMeta := ⟨e.price, e.qty, e.side⟩
  { k with orders := k.orders.insert e.orderId m }.alterSide
    (decide (e.side = 0)) e.price (added e.price e.qty)

/-- A change to one live order, with the deduction it makes on its level. -/
def settle (k : Book) (i : UInt64) (f : OrderMeta → Option OrderMeta × UInt64 × Bool) : Book :=
  match k.orders[i]? with
  | none => k
  | some m =>
    ({ k with orders := FiniteMap.put k.orders i (f m).1 }.deductOn
      (decide (m.side = 0)) m.price (f m).2.1 (f m).2.2).1

theorem alterSide_with (k : Book) (t : ExtTreeMap UInt64 OrderMeta) (isBid : Bool) (p : UInt64)
    (f : Option Level → Option Level) :
    ({ k with orders := t } : Book).alterSide isBid p f = { k.alterSide isBid p f with orders := t } := by
  cases isBid <;> rfl

theorem addOrder_place {M : Nat} {k : Book} {e : Event} (hid : e.orderId ≠ 0)
    (h : (k.addOrder M e).2 = true) : (k.addOrder M e).1 = k.place e := by
  simp only [addOrder, if_pos hid] at h ⊢
  split_ifs at h with hfull
  rw [if_neg hfull, alterSide_orders, ← alterSide_with]
  rfl

theorem addOrder_refused {M : Nat} {k : Book} {e : Event} (hid : e.orderId ≠ 0)
    (h : (k.addOrder M e).2 = false) : (k.addOrder M e).1 = k := by
  simp only [addOrder, if_pos hid] at h ⊢
  split_ifs at h with hfull
  rw [if_pos hfull]

theorem cancelOrder_settle {k : Book} {e : Event} (hid : e.orderId ≠ 0) :
    (k.cancelOrder e).1 = k.settle e.orderId (cancelled e.qty) := by
  simp only [cancelOrder, settle, cancelled]
  rw [if_pos hid]
  cases k.orders[e.orderId]? with
  | none => rfl
  | some m =>
    dsimp only
    split_ifs <;> rfl

theorem trade_settle {k : Book} {e : Event} (hid : e.orderId ≠ 0) :
    (k.trade e).1 = k.settle e.orderId (filled e.qty) := by
  simp only [trade, settle, filled]
  rw [if_neg hid]
  cases k.orders[e.orderId]? with
  | none => rfl
  | some m =>
    dsimp only
    split_ifs <;> rfl

/-- The book without a bound on its depth: nothing is ever refused. -/
def applyFree (k : Book) (e : Event) : Book :=
  match EventType.fromU8 e.eventType with
  | none => k
  | some .orderAdd => k.place e
  | some .orderCancel => (k.cancelOrder e).1
  | some .orderModify => (k.cancelOrder e).1.place e
  | some .trade => (k.trade e).1
  | some .bookSnapshot => k

end Book

/-- Orders resting in places that do not count. -/
def RestsIn (D : List (Bool × UInt64)) (o : Option OrderMeta) : Prop := ∀ m, o = some m → m.place ∈ D

/-- Two books that show the same levels outside the places `D` and the same orders, up to orders
that rest in `D` in either of them. -/
structure AgreeOff (D : List (Bool × UInt64)) (k k' : Book) : Prop where
  sorted : k.Sorted
  sorted' : k'.Sorted
  depth : ∀ a, a ∉ D → k.depth a = k'.depth a
  orders : ∀ i : UInt64, k.orders[i]? = k'.orders[i]? ∨
    (RestsIn D k.orders[i]? ∧ RestsIn D k'.orders[i]?)

namespace AgreeOff

variable {D D' : List (Bool × UInt64)} {k k' : Book}

theorem refl (h : k.Sorted) : AgreeOff [] k k := ⟨h, h, fun _ _ => rfl, fun _ => Or.inl rfl⟩

theorem symm (h : AgreeOff D k k') : AgreeOff D k' k :=
  ⟨h.sorted', h.sorted, fun a ha => (h.depth a ha).symm,
    fun i => (h.orders i).imp Eq.symm And.symm⟩

theorem mono (h : AgreeOff D k k') (hD : D ⊆ D') : AgreeOff D' k k' where
  sorted := h.sorted
  sorted' := h.sorted'
  depth a ha := h.depth a (fun hmem => ha (hD hmem))
  orders i := (h.orders i).imp_right
    (fun hr => ⟨fun m hm => hD (hr.1 m hm), fun m hm => hD (hr.2 m hm)⟩)

/-- Both books change alike at one place and for one order. -/
theorem both (h : AgreeOff D k k') (isBid : Bool) {p : UInt64} {f : Option Level → Option Level}
    (hf : KeyedList.FilesUnder Level.price p f) (i : UInt64) {t t' : ExtTreeMap UInt64 OrderMeta}
    (hi : t[i]? = t'[i]?) (ht : ∀ j, j ≠ i → t[j]? = k.orders[j]?)
    (ht' : ∀ j, j ≠ i → t'[j]? = k'.orders[j]?) :
    AgreeOff D ({ k with orders := t }.alterSide isBid p f) ({ k' with orders := t' }.alterSide isBid p f) := by
  have hs : ({ k with orders := t } : Book).Sorted := ⟨h.sorted.bids, h.sorted.asks⟩
  have hs' : ({ k' with orders := t' } : Book).Sorted := ⟨h.sorted'.bids, h.sorted'.asks⟩
  refine ⟨Book.sorted_alterSide hs isBid hf, Book.sorted_alterSide hs' isBid hf, ?_, ?_⟩
  · intro a ha
    have hold : k.depth a = k'.depth a := h.depth a ha
    rw [Book.depth_alterSide hs isBid hf, Book.depth_alterSide hs' isBid hf]
    simp only [alterAt]
    by_cases hp : a = (isBid, p)
    · subst hp
      rw [Function.update_self, Function.update_self]
      exact congrArg f hold
    · rw [Function.update_of_ne hp, Function.update_of_ne hp]
      exact hold
  · intro j
    rw [Book.alterSide_orders, Book.alterSide_orders]
    by_cases hj : j = i
    · exact Or.inl (by rw [hj]; exact hi)
    · dsimp only
      rw [ht j hj, ht' j hj]
      exact h.orders j

/-- One book changes at a place of `D` and for an order that rests in `D` in both. -/
theorem left (h : AgreeOff D k k') (isBid : Bool) {p : UInt64} {f : Option Level → Option Level}
    (hf : KeyedList.FilesUnder Level.price p f) (hD : (isBid, p) ∈ D) (i : UInt64)
    {t : ExtTreeMap UInt64 OrderMeta} (hi : RestsIn D t[i]?) (hi' : RestsIn D k'.orders[i]?)
    (ht : ∀ j, j ≠ i → t[j]? = k.orders[j]?) :
    AgreeOff D ({ k with orders := t }.alterSide isBid p f) k' := by
  have hs : ({ k with orders := t } : Book).Sorted := ⟨h.sorted.bids, h.sorted.asks⟩
  refine ⟨Book.sorted_alterSide hs isBid hf, h.sorted', ?_, ?_⟩
  · intro a ha
    have hne : a ≠ (isBid, p) := fun he => ha (he ▸ hD)
    rw [Book.depth_alterSide hs isBid hf, alterAt, Function.update_of_ne hne]
    exact h.depth a ha
  · intro j
    rw [Book.alterSide_orders]
    by_cases hj : j = i
    · rw [hj]
      exact Or.inr ⟨hi, hi'⟩
    · dsimp only
      rw [ht j hj]
      exact h.orders j

/-- The rest of a changed order rests where the order did. -/
def KeepsPlace (f : OrderMeta → Option OrderMeta × UInt64 × Bool) : Prop :=
  ∀ m m', (f m).1 = some m' → m'.place = m.place

theorem keepsPlace_cancelled (qty : UInt64) : KeepsPlace (cancelled qty) := by
  intro m m' h
  simp only [cancelled] at h
  split_ifs at h
  rw [← Option.some.inj h]
  rfl

theorem keepsPlace_filled (qty : UInt64) : KeepsPlace (filled qty) := by
  intro m m' h
  simp only [filled] at h
  split_ifs at h
  rw [← Option.some.inj h]
  rfl

theorem settle_left {f : OrderMeta → Option OrderMeta × UInt64 × Bool} (hf : KeepsPlace f)
    (h : AgreeOff D k k') {i : UInt64} (hi : RestsIn D k.orders[i]?)
    (hi' : RestsIn D k'.orders[i]?) :
    AgreeOff D (k.settle i f) k' ∧ RestsIn D (k.settle i f).orders[i]? := by
  simp only [Book.settle]
  cases hm : k.orders[i]? with
  | none =>
    dsimp only
    exact ⟨h, hi⟩
  | some m =>
    have hplace : m.place ∈ D := hi m hm
    have hput : RestsIn D (FiniteMap.put k.orders i (f m).1)[i]? := by
      rw [FiniteMap.get_put, if_pos rfl]
      intro m' he
      rw [hf m m' he]
      exact hplace
    refine ⟨h.left _ (deducted_files m.price _ _) hplace i hput hi' ?_, ?_⟩
    · intro j hj
      rw [FiniteMap.get_put, if_neg hj]
    · dsimp only [Book.deductOn]
      rw [Book.alterSide_orders]
      exact hput

theorem settle {f : OrderMeta → Option OrderMeta × UInt64 × Bool} (hf : KeepsPlace f)
    (h : AgreeOff D k k') (i : UInt64) : AgreeOff D (k.settle i f) (k'.settle i f) := by
  rcases h.orders i with he | ⟨hi, hi'⟩
  · simp only [Book.settle]
    rw [← he]
    cases k.orders[i]? with
    | none => exact h
    | some m =>
      refine h.both _ (deducted_files m.price _ _) i ?_ ?_ ?_
      · rw [FiniteMap.get_put, FiniteMap.get_put, if_pos rfl, if_pos rfl]
      · intro j hj
        rw [FiniteMap.get_put, if_neg hj]
      · intro j hj
        rw [FiniteMap.get_put, if_neg hj]
  · obtain ⟨h₁, hi₁⟩ := settle_left hf h hi hi'
    exact (settle_left hf h₁.symm hi' hi₁).1.symm

theorem place (h : AgreeOff D k k') (e : Event) : AgreeOff D (k.place e) (k'.place e) := by
  refine h.both _ (added_files e.price e.qty) e.orderId ?_ ?_ ?_
  · rw [FiniteMap.get_insert, FiniteMap.get_insert, if_pos rfl, if_pos rfl]
  · intro j hj
    rw [FiniteMap.get_insert, if_neg hj]
  · intro j hj
    rw [FiniteMap.get_insert, if_neg hj]

/-- A refusal sets the books apart at the refused place and where the order already rests. -/
theorem refused (h : AgreeOff D k k') (e : Event) :
    AgreeOff (D ++ (decide (e.side = 0), e.price) ::
      (k.orders[e.orderId]?).toList.map OrderMeta.place) k (k'.place e) := by
  refine (left (h.mono (List.subset_append_left _ _)).symm _ (added_files e.price e.qty) ?_ e.orderId
    ?_ ?_ ?_).symm
  · simp
  · rw [FiniteMap.get_insert, if_pos rfl]
    intro m hm
    rw [← Option.some.inj hm]
    simp [OrderMeta.place]
  · intro m hm
    rw [hm]
    simp
  · intro j hj
    rw [FiniteMap.get_insert, if_neg hj]

end AgreeOff

namespace Book

/-- The places an add is turned away from: its own and, if its id is live, where that rests. -/
def turnedAway (M : Nat) (k : Book) (e : Event) : List (Bool × UInt64) :=
  if (k.addOrder M e).2 then []
  else (decide (e.side = 0), e.price) :: (k.orders[e.orderId]?).toList.map OrderMeta.place

def lost (M : Nat) (k : Book) (e : Event) : List (Bool × UInt64) :=
  match EventType.fromU8 e.eventType with
  | some .orderAdd => k.turnedAway M e
  | some .orderModify => (k.cancelOrder e).1.turnedAway M e
  | _ => []

end Book

namespace AgreeOff

variable {D : List (Bool × UInt64)} {k k' : Book}

theorem addOrder (h : AgreeOff D k k') (M : Nat) {e : Event} (hid : e.orderId ≠ 0) :
    AgreeOff (D ++ k.turnedAway M e) (k.addOrder M e).1 (k'.place e) := by
  simp only [Book.turnedAway]
  cases hflag : (k.addOrder M e).2 with
  | true =>
    rw [Book.addOrder_place hid hflag, if_pos rfl, List.append_nil]
    exact h.place e
  | false =>
    rw [Book.addOrder_refused hid hflag, if_neg (by simp)]
    exact h.refused e

theorem cancelOrder (h : AgreeOff D k k') {e : Event} (hid : e.orderId ≠ 0) :
    AgreeOff D (k.cancelOrder e).1 (k'.cancelOrder e).1 := by
  rw [Book.cancelOrder_settle hid, Book.cancelOrder_settle hid]
  exact h.settle (keepsPlace_cancelled e.qty) e.orderId

theorem trade (h : AgreeOff D k k') {e : Event} (hid : e.orderId ≠ 0) :
    AgreeOff D (k.trade e).1 (k'.trade e).1 := by
  rw [Book.trade_settle hid, Book.trade_settle hid]
  exact h.settle (keepsPlace_filled e.qty) e.orderId

theorem apply (h : AgreeOff D k k') (M : Nat) {e : Event} (hid : e.orderId ≠ 0) :
    AgreeOff (D ++ k.lost M e) (k.apply M e).1 (k'.applyFree e) := by
  simp only [Book.lost, Book.apply, Book.applyFree]
  cases EventType.fromU8 e.eventType with
  | none => rwa [List.append_nil]
  | some t =>
    cases t with
    | orderAdd => exact h.addOrder M hid
    | orderCancel =>
      rw [List.append_nil]
      exact h.cancelOrder hid
    | orderModify => exact (h.cancelOrder hid).addOrder M hid
    | trade =>
      rw [List.append_nil]
      exact h.trade hid
    | bookSnapshot => rwa [List.append_nil]

end AgreeOff

/-! The best price of a side. -/

/-- The price at the front of a ladder. -/
def front (l : List Level) : Option UInt64 := l.head?.map Level.price

theorem ahead_asymm {isBid : Bool} {p q : UInt64} (h : ahead isBid p q = true) :
    ¬ ahead isBid q p = true := fun h' =>
  irrefl_of (fun a b => ahead isBid a b = true) p (trans_of (fun a b => ahead isBid a b = true) h h')

/-- The front of a sorted ladder is ahead of everything else on it. -/
theorem front_ahead {isBid : Bool} {l : Level} {ls : List Level}
    (hs : KeyedList.Sorted Level.price (ahead isBid) (l :: ls)) {c : Level} (hc : c ∈ l :: ls)
    (hne : c.price ≠ l.price) : ahead isBid l.price c.price = true := by
  rcases List.mem_cons.mp hc with rfl | hc
  · exact absurd rfl hne
  · exact (List.pairwise_cons.mp hs).1 c hc

/-- Two ladders with the same levels outside `D` have the same front, if the one stays ahead of
every place of `D`. -/
theorem front_eq {isBid : Bool} {l l' : List Level} {D : List (Bool × UInt64)}
    (hs : KeyedList.Sorted Level.price (ahead isBid) l)
    (hs' : KeyedList.Sorted Level.price (ahead isBid) l')
    (hD : ∀ p, (isBid, p) ∉ D → levelAt p l = levelAt p l')
    (hahead : ∀ p, (isBid, p) ∈ D → ∃ q, front l = some q ∧ ahead isBid q p = true) :
    front l = front l' := by
  have hmem {p : UInt64} (hp : (isBid, p) ∉ D) {c : Level} (hc : c ∈ l') (hcp : c.price = p) :
      c ∈ l := by
    have hl : levelAt p l' = some c := (KeyedList.lookup_iff_mem hs' c).mpr ⟨hc, hcp⟩
    rw [← hD p hp] at hl
    exact KeyedList.mem_of_lookup hl
  cases l with
  | nil =>
    cases l' with
    | nil => rfl
    | cons c cs =>
      have hout : (isBid, c.price) ∉ D := by
        intro hin
        obtain ⟨q, hq, _⟩ := hahead c.price hin
        exact absurd hq (by simp [front])
      exact absurd (hmem hout List.mem_cons_self rfl) (by simp)
  | cons c cs =>
    have hbehind {p : UInt64} (hp : (isBid, p) ∈ D) : ahead isBid c.price p = true := by
      obtain ⟨q, hq, hqp⟩ := hahead p hp
      rw [show q = c.price from (Option.some.inj hq).symm] at hqp
      exact hqp
    have hout : (isBid, c.price) ∉ D := fun hin => ahead_asymm (hbehind hin) (hbehind hin)
    have hc' : c ∈ l' := by
      have hl : levelAt c.price (c :: cs) = some c :=
        (KeyedList.lookup_iff_mem hs c).mpr ⟨List.mem_cons_self, rfl⟩
      rw [hD c.price hout] at hl
      exact KeyedList.mem_of_lookup hl
    cases l' with
    | nil => exact absurd hc' (by simp)
    | cons d ds =>
      have hprice : c.price = d.price := by
        by_contra hne
        have hdc := front_ahead hs' hc' hne
        have hd : (isBid, d.price) ∉ D := fun hin => ahead_asymm hdc (hbehind hin)
        exact ahead_asymm hdc (front_ahead hs (hmem hd List.mem_cons_self rfl) (Ne.symm hne))
      exact congrArg some hprice

namespace OrderBook

def bestBid (b : OrderBook) : Option UInt64 := b.bids.keys.getLast?

def bestAsk (b : OrderBook) : Option UInt64 := b.asks.keys.head?

theorem best_of_shows {b : OrderBook} {k : Book} (h : Shows b k) :
    b.bestBid = front k.bids ∧ b.bestAsk = front k.asks := by
  have hb := congrArg (fun l => (l.head?).map Prod.fst) (bids_of_shows h)
  have ha := congrArg (fun l => (l.head?).map Prod.fst) (asks_of_shows h)
  simp only [byPrice, List.head?_map, List.head?_reverse, Option.map_map] at hb ha
  refine ⟨?_, ?_⟩
  · rw [bestBid, ← ExtTreeMap.map_fst_toList_eq_keys, List.getLast?_map, ← hb]
    rfl
  · rw [bestAsk, ← ExtTreeMap.map_fst_toList_eq_keys, List.head?_map, ← ha]
    rfl

theorem shows_place {b : OrderBook} {k : Book} (h : Shows b k) {e : Event} {s : Side}
    (hs : Side.fromU8 e.side = some s) : Shows (b.addOrder e).1 (k.place e) := by
  have hset := shows_setLevels h s e.price (added_files e.price e.qty)
    (insert_added (b.levels s) e.price e.qty rfl)
  simp only [Book.place, Book.alterSide_with, Side.toU8_of_fromU8 hs, Side.decide_toU8]
  simp only [addOrder, hs]
  refine shows_orders hset ?_
  rw [setLevels_orders]
  exact insert_toMeta h e.orderId ⟨e.orderId, e.price, e.qty, s⟩

/-- The reference book follows the book that refuses nothing. -/
theorem shows_applyFree {b : OrderBook} {k : Book} (h : Shows b k) {e : Event}
    (hr : Referenced e) : Shows (b.apply e).1 (k.applyFree e) := by
  obtain ⟨s, hs⟩ := side_of_referenced hr
  simp only [apply, Book.applyFree]
  cases EventType.fromU8 e.eventType with
  | none => exact h
  | some t =>
    cases t with
    | orderAdd => exact shows_place h hs
    | orderCancel => exact shows_cancelOrder h hr.1
    | orderModify => exact shows_place (shows_cancelOrder h hr.1) hs
    | trade => exact shows_executeTrade h hr.1
    | bookSnapshot => exact h

end OrderBook

namespace HotOrderBook

def bestBid {M : Nat} (b : HotOrderBook M) : Option UInt64 :=
  if b.bids.count > 0 then some (b.bids.cell 0).price else none

def bestAsk {M : Nat} (b : HotOrderBook M) : Option UInt64 :=
  if b.asks.count > 0 then some (b.asks.cell 0).price else none

/-- A book that is one-sided, locked or crossed has no spread. -/
def spread {M : Nat} (b : HotOrderBook M) : Option UInt64 :=
  match b.bestBid, b.bestAsk with
  | some bid, some ask => if ask > bid then some (ask - bid) else none
  | _, _ => none

/-- The places an add is turned away from: its own and, if its id is live, where that rests. -/
def turnedAway {M : Nat} (b : HotOrderBook M) (e : Event) : List (Bool × UInt64) :=
  if (b.addOrder e).2 then []
  else (decide (e.side = 0), e.price) :: (b.orderMeta e.orderId).toList.map OrderMeta.place

/-- The places at which one event loses depth to a full ladder. -/
def lost {M : Nat} (b : HotOrderBook M) (e : Event) : List (Bool × UInt64) :=
  match EventType.fromU8 e.eventType with
  | some .orderAdd => b.turnedAway e
  | some .orderModify => (b.cancelOrder e).1.turnedAway e
  | _ => []

def lostAlong {M : Nat} (b : HotOrderBook M) : List Event → List (Bool × UInt64)
  | [] => []
  | e :: es => b.lost e ++ (b.apply e).1.lostAlong es

theorem best_eq_front {M : Nat} {b : HotOrderBook M} (hg : b.GridInv) :
    b.bestBid = front b.bids.ladder ∧ b.bestAsk = front b.asks.ladder := by
  have hhalf {isBid : Bool} {h : HalfBook M} (hi : h.Inv isBid) :
      (if h.count > 0 then some (h.cell 0).price else none) = front h.ladder := by
    rw [front, List.head?_eq_getElem?]
    split_ifs with hc
    · have hlt : 0 < h.count.toNat := UInt32.lt_iff_toNat_lt.mp hc
      rw [HalfBook.ladder_cell hi.count_le hlt]
      rfl
    · have hz : h.count = 0 := by
        apply UInt32.toNat_inj.mp
        have := mt UInt32.lt_iff_toNat_lt.mpr hc
        rw [UInt32.toNat_zero] at this ⊢
        omega
      simp [HalfBook.ladder, hz]
  exact ⟨hhalf hg.bids, hhalf hg.asks⟩

theorem turnedAway_view {M : Nat} {b : HotOrderBook M} (hg : b.GridInv) (e : Event) :
    b.turnedAway e = b.view.turnedAway M e := by
  rw [turnedAway, Book.turnedAway, addOrder_flag hg, orderMeta, ← OrderSlab.live_get]
  rfl

theorem lost_view {M : Nat} {b : HotOrderBook M} (hi : b.Inv) (e : Event) :
    b.lost e = b.view.lost M e := by
  simp only [lost, Book.lost]
  cases EventType.fromU8 e.eventType with
  | none => rfl
  | some t =>
    cases t with
    | orderAdd => exact turnedAway_view hi.grid e
    | orderModify =>
      obtain ⟨hc, hv, _⟩ := cancelOrder_refines hi e
      dsimp only
      rw [turnedAway_view hc.grid, hv]
    | orderCancel => rfl
    | trade => rfl
    | bookSnapshot => rfl

theorem lostAlong_append {M : Nat} (b : HotOrderBook M) (es : List Event) (e : Event) :
    b.lostAlong (es ++ [e]) = b.lostAlong es ++ (b.run es).lost e := by
  induction es generalizing b with
  | nil => simp [lostAlong, run]
  | cons d es ih =>
    rw [List.cons_append, lostAlong, lostAlong, ih, List.append_assoc]
    rfl

/-- Whatever the slot numbers do, an add leaves as many ids as the view has orders. -/
theorem size_addOrder {M : Nat} {b : HotOrderBook M} (hi : b.Inv) (e : Event) :
    (b.view.addOrder M e).1.orders.size = (b.addOrder e).1.orders.index.size := by
  have hsize := OrderSlab.live_size hi.slab
  have hspec := HalfBook.addLevel_spec (half_inv hi.grid (decide (e.side = 0))) e.price e.qty
  simp only [addOrder, Book.addOrder, view_side]
  cases ha : (b.half (decide (e.side = 0))).addLevel (decide (e.side = 0)) e.price e.qty with
  | none =>
    rw [if_pos (hspec.1 ha)]
    exact hsize
  | some h =>
    rw [if_neg (hspec.2 h ha).2.2.1]
    dsimp only
    by_cases hid : e.orderId ≠ 0
    · rw [if_pos hid, if_pos hid, Book.alterSide_orders, setHalf_orders]
      exact OrderSlab.size_insert hi.slab e.orderId _
    · rw [if_neg hid, if_neg hid, Book.alterSide_orders, setHalf_orders]
      exact hsize

theorem size_apply {M : Nat} {b : HotOrderBook M} (hi : b.Inv) (e : Event) :
    (b.view.apply M e).1.orders.size = (b.apply e).1.orders.index.size := by
  have hsize {c : HotOrderBook M} (hc : c.Inv) : c.view.orders.size = c.orders.index.size :=
    OrderSlab.live_size hc.slab
  simp only [apply, Book.apply]
  cases EventType.fromU8 e.eventType with
  | none => exact hsize hi
  | some t =>
    cases t with
    | orderAdd => exact size_addOrder hi e
    | orderCancel =>
      obtain ⟨hc, hv, _⟩ := cancelOrder_refines hi e
      dsimp only
      rw [← hv]
      exact hsize hc
    | orderModify =>
      obtain ⟨hc, hv, _⟩ := cancelOrder_refines hi e
      dsimp only
      rw [← hv]
      exact size_addOrder hc e
    | trade =>
      obtain ⟨hw, hv, _⟩ := hi.wf.trade_refines e
      dsimp only
      rw [← hv]
      exact hsize (hw.inv hi.grid.bids.depth)
    | bookSnapshot => exact hsize hi

/-- Along any run the hot book and the reference book show the same outside the lost places. -/
theorem run_agreeOff {M : Nat} (hM : M < 2 ^ 32) (instrumentId : UInt32) (es : List Event)
    (href : ∀ e ∈ es, OrderBook.Referenced e)
    (hfit : ∀ p, p <+: es → ((new M instrumentId).run p).orders.index.size ≤ 2 ^ 32) :
    ((new M instrumentId).run es).Inv ∧
      ∃ k, ((OrderBook.new instrumentId).run es).Shows k ∧
        AgreeOff ((new M instrumentId).lostAlong es) ((new M instrumentId).run es).view k := by
  induction es using List.reverseRecOn with
  | nil =>
    refine ⟨inv_new hM instrumentId, Book.empty, OrderBook.shows_empty instrumentId, ?_⟩
    rw [run, List.foldl_nil, view_new]
    exact AgreeOff.refl Book.balanced_empty.sorted
  | append_singleton es e ih =>
    have hpre : es <+: es ++ [e] := List.prefix_append es [e]
    have hrun : (new M instrumentId).run (es ++ [e]) = (((new M instrumentId).run es).apply e).1 := by
      rw [run, List.foldl_append]
      rfl
    have hrun' : (OrderBook.new instrumentId).run (es ++ [e]) =
        (((OrderBook.new instrumentId).run es).apply e).1 := by
      rw [OrderBook.run, List.foldl_append]
      rfl
    obtain ⟨hi, k, hshow, hagree⟩ := ih (fun d hd => href d (List.mem_append_left _ hd))
      (fun p hp => hfit p (hp.trans hpre))
    have hlast := hfit (es ++ [e]) List.prefix_rfl
    have href' := href e (by simp)
    rw [hrun, ← size_apply hi] at hlast
    obtain ⟨hinv, hview, _⟩ := apply_refines hi e hlast
    rw [hrun, hrun', lostAlong_append, lost_view hi, hview]
    exact ⟨hinv, k.applyFree e, OrderBook.shows_applyFree hshow href', hagree.apply M href'.1⟩

end HotOrderBook

/-- A full ladder loses depth only: after every run of referenced events the best prices of the two
books are equal on every side whose best price is ahead of all the places that side has lost. -/
theorem hotBook_keeps_touch {M : Nat} (hM : M < 2 ^ 32) (instrumentId : UInt32) (es : List Event)
    (href : ∀ e ∈ es, OrderBook.Referenced e)
    (hfit : ∀ p, p <+: es →
      ((HotOrderBook.new M instrumentId).run p).orders.index.size ≤ 2 ^ 32) :
    ((∀ p, (true, p) ∈ (HotOrderBook.new M instrumentId).lostAlong es →
        ∃ q, ((HotOrderBook.new M instrumentId).run es).bestBid = some q ∧ q > p) →
      ((HotOrderBook.new M instrumentId).run es).bestBid =
        ((OrderBook.new instrumentId).run es).bestBid) ∧
    ((∀ p, (false, p) ∈ (HotOrderBook.new M instrumentId).lostAlong es →
        ∃ q, ((HotOrderBook.new M instrumentId).run es).bestAsk = some q ∧ q < p) →
      ((HotOrderBook.new M instrumentId).run es).bestAsk =
        ((OrderBook.new instrumentId).run es).bestAsk) := by
  obtain ⟨hi, k, hshow, hagree⟩ := HotOrderBook.run_agreeOff hM instrumentId es href hfit
  obtain ⟨hbid, hask⟩ := HotOrderBook.best_eq_front hi.grid
  obtain ⟨hbid', hask'⟩ := OrderBook.best_of_shows hshow
  rw [hbid, hask, hbid', hask']
  constructor
  · intro hahead
    refine front_eq hagree.sorted.bids hagree.sorted'.bids (fun p hp => hagree.depth (true, p) hp) ?_
    intro p hp
    obtain ⟨q, hq, hlt⟩ := hahead p hp
    exact ⟨q, hq, by simpa [ahead] using hlt⟩
  · intro hahead
    refine front_eq hagree.sorted.asks hagree.sorted'.asks (fun p hp => hagree.depth (false, p) hp) ?_
    intro p hp
    obtain ⟨q, hq, hlt⟩ := hahead p hp
    exact ⟨q, hq, by simpa [ahead] using hlt⟩

/-- A bid turned away behind the touch, on a grid of one level. -/
theorem hotBook_keeps_touch_behind :
    ((HotOrderBook.new 1 7).run [⟨0, 11, 5, 1, 7, 1, 0⟩, ⟨1, 10, 4, 2, 7, 1, 0⟩]).bestBid =
      ((OrderBook.new 7).run [⟨0, 11, 5, 1, 7, 1, 0⟩, ⟨1, 10, 4, 2, 7, 1, 0⟩]).bestBid := by
  refine (hotBook_keeps_touch (M := 1) (by norm_num) 7 _ ?_ ?_).1 ?_
  · simp [OrderBook.Referenced]
  · intro p h
    apply Machine.parts_of_get _ h
    decide
  · intro p hp
    have hlost : (HotOrderBook.new 1 7).lostAlong [⟨0, 11, 5, 1, 7, 1, 0⟩, ⟨1, 10, 4, 2, 7, 1, 0⟩] =
        [(true, 10)] := by decide
    rw [hlost, List.mem_singleton] at hp
    have hp10 : p = 10 := congrArg Prod.snd hp
    exact ⟨11, by decide, by rw [hp10]; decide⟩

/-- Two bids fill the grid of two levels; the next one improves on both and is turned away. -/
theorem hotBook_loses_touch :
    (∀ e ∈ [(⟨0, 10, 5, 1, 7, 1, 0⟩ : Event), ⟨1, 11, 4, 2, 7, 1, 0⟩, ⟨2, 12, 3, 3, 7, 1, 0⟩],
      OrderBook.Referenced e) ∧
    ((HotOrderBook.new 2 7).run [⟨0, 10, 5, 1, 7, 1, 0⟩, ⟨1, 11, 4, 2, 7, 1, 0⟩,
      ⟨2, 12, 3, 3, 7, 1, 0⟩]).bestBid = some 11 ∧
    ((OrderBook.new 7).run [⟨0, 10, 5, 1, 7, 1, 0⟩, ⟨1, 11, 4, 2, 7, 1, 0⟩,
      ⟨2, 12, 3, 3, 7, 1, 0⟩]).bestBid = some 12 :=
  ⟨by simp [OrderBook.Referenced], by decide, by decide⟩

end Flowlab.Core
