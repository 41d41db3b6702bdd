import Flowlab.Core.HotGrid

namespace Flowlab.Core

open Framework

namespace HotOrderBook

/-- What the hot book shows: the live cells of each side and the orders its index reaches. -/
def view {M : Nat} (b : HotOrderBook M) : Book := ⟨b.bids.ladder, b.asks.ladder, b.orders.live⟩

structure GridInv {M : Nat} (b : HotOrderBook M) : Prop where
  bids : b.bids.Inv true
  asks : b.asks.Inv false

/-- Both sides well formed, whatever the depth. -/
structure Grid {M : Nat} (b : HotOrderBook M) : Prop where
  bids : b.bids.Wf true
  asks : b.asks.Wf false

/-- Neither side can wrap its count with one level more. -/
def Grows {M : Nat} (b : HotOrderBook M) : Prop := ∀ isBid, (b.half isBid).Grows

theorem grid_new (M : Nat) (instrumentId : UInt32) : (new M instrumentId).Grid :=
  ⟨HalfBook.wf_empty M true, HalfBook.wf_empty M false⟩

theorem GridInv.grid {M : Nat} {b : HotOrderBook M} (hg : b.GridInv) : b.Grid :=
  ⟨hg.bids.wf, hg.asks.wf⟩

theorem Grid.gridInv {M : Nat} {b : HotOrderBook M} (hg : b.Grid) (hM : M < 2 ^ 32) : b.GridInv :=
  ⟨hg.bids.inv hM, hg.asks.inv hM⟩

theorem GridInv.grows {M : Nat} {b : HotOrderBook M} (hg : b.GridInv) : b.Grows :=
  fun _ => Or.inl hg.bids.depth

theorem gridInv_new {M : Nat} (hM : M < 2 ^ 32) (instrumentId : UInt32) :
    (new M instrumentId).GridInv :=
  (grid_new M instrumentId).gridInv hM

theorem half_wf {M : Nat} {b : HotOrderBook M} (hg : b.Grid) (isBid : Bool) :
    (b.half isBid).Wf isBid := by
  cases isBid
  · exact hg.asks
  · exact hg.bids

theorem half_inv {M : Nat} {b : HotOrderBook M} (hg : b.GridInv) (isBid : Bool) :
    (b.half isBid).Inv isBid := by
  cases isBid
  · exact hg.asks
  · exact hg.bids

theorem grid_setHalf {M : Nat} {b : HotOrderBook M} (hg : b.Grid) {isBid : Bool}
    {h : HalfBook M} (hh : h.Wf isBid) : (b.setHalf isBid h).Grid := by
  cases isBid
  · exact ⟨hg.bids, hh⟩
  · exact ⟨hh, hg.asks⟩

theorem setHalf_orders {M : Nat} (b : HotOrderBook M) (isBid : Bool) (h : HalfBook M) :
    (b.setHalf isBid h).orders = b.orders := by
  cases isBid <;> rfl

theorem view_side {M : Nat} (b : HotOrderBook M) (isBid : Bool) :
    b.view.side isBid = (b.half isBid).ladder := by
  cases isBid <;> rfl

/-- Replacing one side by an altered one alters that side of the view. -/
theorem view_setHalf {M : Nat} (b : HotOrderBook M) (isBid : Bool) (price : UInt64)
    (f : Option Level → Option Level) (h : HalfBook M)
    (hl : h.ladder = KeyedList.alter Level.price (ahead isBid) price f (b.half isBid).ladder) :
    (b.setHalf isBid h).view = b.view.alterSide isBid price f := by
  cases isBid
  · simp only [setHalf, view, Book.alterSide, Bool.false_eq_true, if_false, hl]
    rfl
  · simp only [setHalf, view, Book.alterSide, if_true, hl]
    rfl

theorem Grid.deductOn_spec {M : Nat} {b : HotOrderBook M} (hg : b.Grid) (isBid : Bool)
    (price qty : UInt64) (release : Bool) :
    (b.deductOn isBid price qty release).1.Grid ∧
    (b.deductOn isBid price qty release).1.view = (b.view.deductOn isBid price qty release).1 ∧
    (b.deductOn isBid price qty release).2 = (b.view.deductOn isBid price qty release).2 := by
  obtain ⟨hinv, hlad, hflag⟩ := (half_wf hg isBid).deduct_spec price qty release
  refine ⟨grid_setHalf hg hinv, view_setHalf b isBid price _ _ hlad, ?_⟩
  rw [Book.deductOn, view_side]
  exact hflag

theorem deductOn_orders {M : Nat} (b : HotOrderBook M) (isBid : Bool) (price qty : UInt64)
    (release : Bool) : (b.deductOn isBid price qty release).1.orders = b.orders :=
  setHalf_orders b isBid _

theorem grid_orders {M : Nat} {b : HotOrderBook M} (hg : b.Grid) (s : OrderSlab) :
    ({ b with orders := s } : HotOrderBook M).Grid := ⟨hg.bids, hg.asks⟩

theorem Grid.tradeAnon_spec {M : Nat} {b : HotOrderBook M} (hg : b.Grid) (price qty : UInt64)
    (isBid : Bool) :
    (b.tradeAnon price qty isBid).1.Grid ∧
    (b.tradeAnon price qty isBid).1.view = b.view.alterSide isBid price (deductedAnon qty) ∧
    (b.tradeAnon price qty isBid).2 = (levelAt price (b.view.side isBid)).isSome := by
  obtain ⟨hinv, hlad, hflag⟩ := (half_wf hg isBid).deductAnon_spec price qty
  refine ⟨grid_setHalf hg hinv, view_setHalf b isBid price _ _ hlad, ?_⟩
  rw [view_side]
  exact hflag

/-! What one event does to a book, as rules for proving things of every book. -/

/-- What holds of a book at a full grid, of the book with a level raised, and of that book with the
order filed holds after an add. -/
theorem addOrder_rule {M : Nat} {P : HotOrderBook M → Prop} {b : HotOrderBook M} {e : Event}
    (hfull : P b)
    (hraised : ∀ h, (b.half (decide (e.side = 0))).addLevel (decide (e.side = 0)) e.price e.qty =
      some h → P (b.setHalf (decide (e.side = 0)) h))
    (hfiled : ∀ c : HotOrderBook M, c.orders = b.orders → e.orderId ≠ 0 → P c →
      P { c with orders := c.orders.insert e.orderId ⟨e.price, e.qty, e.side⟩ }) :
    P (b.addOrder e).1 := by
  simp only [addOrder]
  cases ha : (b.half (decide (e.side = 0))).addLevel (decide (e.side = 0)) e.price e.qty with
  | none => exact hfull
  | some h =>
    dsimp only
    split_ifs with hid
    · exact hfiled _ (setHalf_orders b _ h) hid (hraised h ha)
    · exact hraised h ha

/-- A property of books that survives whatever takes from an order or from a level. -/
structure Kept {M : Nat} (P : HotOrderBook M → Prop) : Prop where
  remove : ∀ b orderId, P b → P { b with orders := (b.orders.remove orderId).1 }
  setMeta : ∀ b orderId m, P b → P { b with orders := b.orders.setMeta orderId m }
  deductOn : ∀ b isBid price qty release, P b → P (b.deductOn isBid price qty release).1
  tradeAnon : ∀ b price qty isBid, P b → P (b.tradeAnon price qty isBid).1

namespace Kept

variable {M : Nat} {P Q : HotOrderBook M → Prop} {b : HotOrderBook M}

theorem cancelOrder (h : Kept P) (hb : P b) (e : Event) : P (b.cancelOrder e).1 := by
  simp only [HotOrderBook.cancelOrder]
  split_ifs
  · cases b.orders.get e.orderId with
    | none => exact hb
    | some m =>
      dsimp only
      split_ifs
      · exact h.deductOn _ _ _ _ _ (h.remove _ _ hb)
      · exact h.deductOn _ _ _ _ _ (h.setMeta _ _ _ hb)
  · exact h.deductOn _ _ _ _ _ hb

theorem trade (h : Kept P) (hb : P b) (e : Event) : P (b.trade e).1 := by
  simp only [HotOrderBook.trade]
  split_ifs
  · exact h.tradeAnon _ _ _ _ hb
  · cases b.orders.get e.orderId with
    | none => exact hb
    | some m =>
      dsimp only
      split_ifs
      · exact h.deductOn _ _ _ _ _ (h.setMeta _ _ _ hb)
      · exact h.deductOn _ _ _ _ _ (h.remove _ _ hb)

theorem and (hP : Kept P) (hQ : Kept Q) : Kept (fun b => P b ∧ Q b) where
  remove b orderId h := ⟨hP.remove b orderId h.1, hQ.remove b orderId h.2⟩
  setMeta b orderId m h := ⟨hP.setMeta b orderId m h.1, hQ.setMeta b orderId m h.2⟩
  deductOn b isBid price qty release h :=
    ⟨hP.deductOn b isBid price qty release h.1, hQ.deductOn b isBid price qty release h.2⟩
  tradeAnon b price qty isBid h :=
    ⟨hP.tradeAnon b price qty isBid h.1, hQ.tradeAnon b price qty isBid h.2⟩

/-- What a kept property gives now and after an add, it gives after any event. -/
theorem apply (h : Kept P) {e : Event} (hnow : ∀ c, P c → Q c)
    (hadd : ∀ c, P c → Q (c.addOrder e).1) (hb : P b) : Q (b.apply e).1 := by
  simp only [HotOrderBook.apply]
  cases EventType.fromU8 e.eventType with
  | none => exact hnow b hb
  | some t =>
    cases t with
    | orderAdd => exact hadd b hb
    | orderCancel => exact hnow _ (h.cancelOrder hb e)
    | orderModify => exact hadd _ (h.cancelOrder hb e)
    | trade => exact hnow _ (h.trade hb e)
    | bookSnapshot => exact hnow b hb

end Kept

/-- No event renames the instrument of the book. -/
theorem apply_instrumentId {M : Nat} (b : HotOrderBook M) (e : Event) :
    (b.apply e).1.instrumentId = b.instrumentId := by
  have hset (c : HotOrderBook M) (isBid : Bool) (g : HalfBook M) :
      (c.setHalf isBid g).instrumentId = c.instrumentId := by cases isBid <;> rfl
  have hkept : Kept (fun c : HotOrderBook M => c.instrumentId = b.instrumentId) :=
    { remove := fun _ _ h => h
      setMeta := fun _ _ _ h => h
      deductOn := fun c isBid _ _ _ h => (hset c isBid _).trans h
      tradeAnon := fun c _ _ isBid h => (hset c isBid _).trans h }
  refine hkept.apply (Q := fun c => c.instrumentId = b.instrumentId) (fun _ h => h) ?_ rfl
  intro c hc
  apply addOrder_rule (P := fun d => d.instrumentId = b.instrumentId)
  · exact hc
  · intro g _
    exact (hset c _ g).trans hc
  · intro d _ _ hd
    exact hd

/-! The grid stays well formed under every event, whatever the slab does. -/

theorem grid_addOrder {M : Nat} {b : HotOrderBook M} (hg : b.Grid) (hgrow : b.Grows) (e : Event) :
    (b.addOrder e).1.Grid := by
  apply addOrder_rule hg
  · intro h ha
    exact grid_setHalf hg (((half_wf hg _).addLevel_spec (hgrow _) e.price e.qty).2 h ha).1
  · intro c _ _ hc
    exact grid_orders hc _

theorem kept_grid {M : Nat} : Kept (Grid (M := M)) where
  remove _ _ hg := grid_orders hg _
  setMeta _ _ _ hg := grid_orders hg _
  deductOn _ isBid price qty release hg := (hg.deductOn_spec isBid price qty release).1
  tradeAnon _ price qty isBid hg := (hg.tradeAnon_spec price qty isBid).1

/-! No event adds more than one level to a side, and only an add does. -/

theorem count_setHalf {M : Nat} {b : HotOrderBook M} {isBid : Bool} {h : HalfBook M} {n : Nat}
    (hc : h.count.toNat ≤ (b.half isBid).count.toNat + n) (i : Bool) :
    ((b.setHalf isBid h).half i).count.toNat ≤ (b.half i).count.toNat + n := by
  cases isBid <;> cases i <;> first | exact hc | exact Nat.le_add_right _ _

theorem count_deductOn {M : Nat} (b : HotOrderBook M) (isBid : Bool) (price qty : UInt64)
    (release i : Bool) :
    ((b.deductOn isBid price qty release).1.half i).count.toNat ≤ (b.half i).count.toNat :=
  count_setHalf (n := 0) (HalfBook.deduct_count _ isBid price qty release) i

theorem count_tradeAnon {M : Nat} (b : HotOrderBook M) (price qty : UInt64) (isBid i : Bool) :
    ((b.tradeAnon price qty isBid).1.half i).count.toNat ≤ (b.half i).count.toNat :=
  count_setHalf (n := 0) (HalfBook.deductAnon_count _ isBid price qty) i

theorem count_addOrder {M : Nat} (b : HotOrderBook M) (e : Event) (i : Bool) :
    ((b.addOrder e).1.half i).count.toNat ≤ (b.half i).count.toNat + 1 := by
  apply addOrder_rule (P := fun c => (c.half i).count.toNat ≤ (b.half i).count.toNat + 1)
  · exact Nat.le_succ _
  · intro h ha
    exact count_setHalf (HalfBook.addLevel_count ha) i
  · intro c _ _ hc
    exact hc

theorem kept_count {M : Nat} (i : Bool) (n : Nat) :
    Kept (fun b : HotOrderBook M => (b.half i).count.toNat ≤ n) where
  remove _ _ hc := hc
  setMeta _ _ _ hc := hc
  deductOn b isBid price qty release hc := (count_deductOn b isBid price qty release i).trans hc
  tradeAnon b price qty isBid hc := (count_tradeAnon b price qty isBid i).trans hc

theorem count_apply {M : Nat} (b : HotOrderBook M) (e : Event) (i : Bool) :
    ((b.apply e).1.half i).count.toNat ≤ (b.half i).count.toNat + 1 := by
  apply (kept_count i (b.half i).count.toNat).apply
    (Q := fun c => (c.half i).count.toNat ≤ (b.half i).count.toNat + 1)
  · intro c hc
    exact hc.trans (Nat.le_succ _)
  · intro c hc
    exact (count_addOrder c e i).trans (Nat.succ_le_succ hc)
  · exact Nat.le_refl _

theorem count_run {M : Nat} (b : HotOrderBook M) (es : List Event) (i : Bool) :
    ((b.run es).half i).count.toNat ≤ (b.half i).count.toNat + es.length := by
  induction es generalizing b with
  | nil => exact Nat.le_refl _
  | cons e es ih =>
    have hrest := ih (b.apply e).1
    have hstep := count_apply b e i
    rw [List.length_cons]
    exact hrest.trans (by omega)

theorem grows_of_count {M : Nat} {b c : HotOrderBook M} (h : b.Grows)
    (hc : ∀ i, (c.half i).count.toNat ≤ (b.half i).count.toNat) : c.Grows := by
  intro i
  have hle := hc i
  rcases h i with hM | hlt
  · exact Or.inl hM
  · exact Or.inr (by omega)

theorem kept_grows {M : Nat} : Kept (Grows (M := M)) where
  remove _ _ h := h
  setMeta _ _ _ h := h
  deductOn b isBid price qty release h := grows_of_count h (count_deductOn b isBid price qty release)
  tradeAnon b price qty isBid h := grows_of_count h (count_tradeAnon b price qty isBid)

/-- A run of fewer than 2^32 events leaves room in the count whatever the depth. -/
theorem grows_run (M : Nat) (instrumentId : UInt32) (es : List Event)
    (hlen : es.length + 1 < 2 ^ 32) : ((new M instrumentId).run es).Grows := by
  intro i
  have hc := count_run (new M instrumentId) es i
  have hzero : ((new M instrumentId).half i).count.toNat = 0 := by cases i <;> rfl
  exact Or.inr (by omega)

theorem grid_apply {M : Nat} {b : HotOrderBook M} (hg : b.Grid) (hgrow : b.Grows) (e : Event) :
    (b.apply e).1.Grid := by
  apply (kept_grid.and kept_grows).apply (Q := Grid)
  · intro c hc
    exact hc.1
  · intro c hc
    exact grid_addOrder hc.1 hc.2 e
  · exact ⟨hg, hgrow⟩

/-! The same where the depth is known to fit the count. -/

theorem gridInv_orders {M : Nat} {b : HotOrderBook M} (hg : b.GridInv) (s : OrderSlab) :
    ({ b with orders := s } : HotOrderBook M).GridInv := ⟨hg.bids, hg.asks⟩

theorem deductOn_spec {M : Nat} {b : HotOrderBook M} (hg : b.GridInv) (isBid : Bool)
    (price qty : UInt64) (release : Bool) :
    (b.deductOn isBid price qty release).1.GridInv ∧
    (b.deductOn isBid price qty release).1.view = (b.view.deductOn isBid price qty release).1 ∧
    (b.deductOn isBid price qty release).2 = (b.view.deductOn isBid price qty release).2 := by
  obtain ⟨h, hv, hflag⟩ := hg.grid.deductOn_spec isBid price qty release
  exact ⟨h.gridInv hg.bids.depth, hv, hflag⟩

theorem gridInv_addOrder {M : Nat} {b : HotOrderBook M} (hg : b.GridInv) (e : Event) :
    (b.addOrder e).1.GridInv :=
  (grid_addOrder hg.grid hg.grows e).gridInv hg.bids.depth

theorem gridInv_apply {M : Nat} {b : HotOrderBook M} (hg : b.GridInv) (e : Event) :
    (b.apply e).1.GridInv :=
  (grid_apply hg.grid hg.grows e).gridInv hg.bids.depth

theorem gridInv_run {M : Nat} {b : HotOrderBook M} (hg : b.GridInv) (es : List Event) :
    (b.run es).GridInv := by
  induction es generalizing b with
  | nil => exact hg
  | cons e es ih => exact ih (gridInv_apply hg e)

theorem gridInv_reachable {M : Nat} (hM : M < 2 ^ 32) {b : HotOrderBook M} (h : b.Reachable) :
    b.GridInv := by
  obtain ⟨instrumentId, es, rfl⟩ := h
  exact gridInv_run (gridInv_new hM instrumentId) es

/-! Step by step the hot book shows what the abstract book computes. -/

/-- The hot book with a sound slab. -/
structure Inv {M : Nat} (b : HotOrderBook M) : Prop where
  grid : b.GridInv
  slab : b.orders.Inv

/-- The same whatever the depth. -/
structure Wf {M : Nat} (b : HotOrderBook M) : Prop where
  grid : b.Grid
  slab : b.orders.Inv

theorem Inv.wf {M : Nat} {b : HotOrderBook M} (hi : b.Inv) : b.Wf := ⟨hi.grid.grid, hi.slab⟩

theorem Wf.inv {M : Nat} {b : HotOrderBook M} (hw : b.Wf) (hM : M < 2 ^ 32) : b.Inv :=
  ⟨hw.grid.gridInv hM, hw.slab⟩

theorem Wf.addOrder_refines {M : Nat} {b : HotOrderBook M} (hi : b.Wf) (hgrow : b.Grows) (e : Event)
    (hfit : (b.view.addOrder M e).1.orders.size ≤ 2 ^ 32) :
    (b.addOrder e).1.Wf ∧ (b.addOrder e).1.view = (b.view.addOrder M e).1 ∧
      (b.addOrder e).2 = (b.view.addOrder M e).2 := by
  have hspec := (half_wf hi.grid (decide (e.side = 0))).addLevel_spec (hgrow _) e.price e.qty
  simp only [addOrder]
  simp only [Book.addOrder, view_side] at hfit ⊢
  cases ha : (b.half (decide (e.side = 0))).addLevel (decide (e.side = 0)) e.price e.qty with
  | none =>
    rw [if_pos (hspec.1 ha)]
    exact ⟨hi, rfl, rfl⟩
  | some h =>
    obtain ⟨hinv, hlad, hroom, _⟩ := hspec.2 h ha
    have hg := grid_setHalf hi.grid hinv
    have hv := view_setHalf b _ e.price _ h hlad
    rw [if_neg hroom] at hfit ⊢
    rw [← hv] at hfit ⊢
    dsimp only
    by_cases hid : e.orderId ≠ 0
    · rw [if_pos hid] at hfit
      rw [if_pos hid, if_pos hid]
      have hs : (b.setHalf (decide (e.side = 0)) h).orders.Inv := by
        rw [setHalf_orders]; exact hi.slab
      have hr := OrderSlab.room_of_size hs hfit
      refine ⟨⟨grid_orders hg _, OrderSlab.inv_insert hs hr _⟩, ?_, rfl⟩
      ext1
      · rfl
      · rfl
      · exact OrderSlab.live_insert hs hr _
    · rw [if_neg hid, if_neg hid]
      exact ⟨⟨hg, by rw [setHalf_orders]; exact hi.slab⟩, rfl, rfl⟩

/-- A deduction after a change of the slab that the view follows. -/
theorem Wf.deductOn_refines {M : Nat} {b : HotOrderBook M} (hi : b.Wf) (s : OrderSlab) (hs : s.Inv)
    (isBid : Bool) (price qty : UInt64) (release : Bool) :
    (({ b with orders := s } : HotOrderBook M).deductOn isBid price qty release).1.Wf ∧
    (({ b with orders := s } : HotOrderBook M).deductOn isBid price qty release).1.view =
      (({ b.view with orders := s.live } : Book).deductOn isBid price qty release).1 ∧
    (({ b with orders := s } : HotOrderBook M).deductOn isBid price qty release).2 =
      (({ b.view with orders := s.live } : Book).deductOn isBid price qty release).2 := by
  obtain ⟨hg, hv, hflag⟩ := (grid_orders hi.grid s).deductOn_spec isBid price qty release
  exact ⟨⟨hg, by rw [deductOn_orders]; exact hs⟩, hv, hflag⟩

theorem Wf.cancelOrder_refines {M : Nat} {b : HotOrderBook M} (hi : b.Wf) (e : Event) :
    (b.cancelOrder e).1.Wf ∧ (b.cancelOrder e).1.view = (b.view.cancelOrder e).1 ∧
      (b.cancelOrder e).2 = (b.view.cancelOrder e).2 := by
  simp only [cancelOrder, Book.cancelOrder]
  have hget : b.view.orders[e.orderId]? = b.orders.get e.orderId := OrderSlab.live_get _ _
  rw [hget]
  split_ifs with hid
  · cases hm : b.orders.get e.orderId with
    | none => exact ⟨hi, rfl, rfl⟩
    | some m =>
      dsimp only
      split_ifs with hfull
      · have h := hi.deductOn_refines _ (OrderSlab.inv_remove hi.slab e.orderId)
          (decide (m.side = 0)) m.price m.qty true
        rwa [OrderSlab.live_remove] at h
      · have h := hi.deductOn_refines _ (OrderSlab.inv_setMeta hi.slab e.orderId
          { m with qty := m.qty - e.qty }) (decide (m.side = 0)) m.price e.qty false
        rwa [OrderSlab.live_setMeta hi.slab hm] at h
  · exact hi.deductOn_refines b.orders hi.slab _ _ _ _

theorem Wf.trade_refines {M : Nat} {b : HotOrderBook M} (hi : b.Wf) (e : Event) :
    (b.trade e).1.Wf ∧ (b.trade e).1.view = (b.view.trade e).1 ∧
      (b.trade e).2 = (b.view.trade e).2 := by
  simp only [trade, Book.trade]
  have hget : b.view.orders[e.orderId]? = b.orders.get e.orderId := OrderSlab.live_get _ _
  rw [hget]
  split_ifs with hid
  · obtain ⟨hg, hv, hflag⟩ := hi.grid.tradeAnon_spec e.price e.qty (decide (e.side = 0))
    refine ⟨⟨hg, ?_⟩, hv, hflag⟩
    rw [tradeAnon, setHalf_orders]
    exact hi.slab
  · cases hm : b.orders.get e.orderId with
    | none => exact ⟨hi, rfl, rfl⟩
    | some m =>
      dsimp only
      split_ifs with hpart
      · have h := hi.deductOn_refines _ (OrderSlab.inv_setMeta hi.slab e.orderId
          { m with qty := m.qty - min e.qty m.qty }) (decide (m.side = 0)) m.price
          (min e.qty m.qty) false
        rwa [OrderSlab.live_setMeta hi.slab hm] at h
      · have h := hi.deductOn_refines _ (OrderSlab.inv_remove hi.slab e.orderId)
          (decide (m.side = 0)) m.price (min e.qty m.qty) true
        rwa [OrderSlab.live_remove] at h

theorem Wf.apply_refines {M : Nat} {b : HotOrderBook M} (hi : b.Wf) (hgrow : b.Grows) (e : Event)
    (hfit : (b.view.apply M e).1.orders.size ≤ 2 ^ 32) :
    (b.apply e).1.Wf ∧ (b.apply e).1.view = (b.view.apply M e).1 ∧
      (b.apply e).2 = (b.view.apply M e).2 := by
  simp only [apply]
  simp only [Book.apply] at hfit ⊢
  cases ht : EventType.fromU8 e.eventType with
  | none => exact ⟨hi, rfl, rfl⟩
  | some t =>
    rw [ht] at hfit
    cases t with
    | orderAdd => exact hi.addOrder_refines hgrow e hfit
    | orderCancel => exact hi.cancelOrder_refines e
    | orderModify =>
      obtain ⟨hc, hv, _⟩ := hi.cancelOrder_refines e
      dsimp only at hfit ⊢
      rw [← hv] at hfit ⊢
      exact hc.addOrder_refines (kept_grows.cancelOrder hgrow e) e hfit
    | trade => exact hi.trade_refines e
    | bookSnapshot => exact ⟨hi, rfl, rfl⟩

theorem cancelOrder_refines {M : Nat} {b : HotOrderBook M} (hi : b.Inv) (e : Event) :
    (b.cancelOrder e).1.Inv ∧ (b.cancelOrder e).1.view = (b.view.cancelOrder e).1 ∧
      (b.cancelOrder e).2 = (b.view.cancelOrder e).2 := by
  obtain ⟨hw, hv, hflag⟩ := hi.wf.cancelOrder_refines e
  exact ⟨hw.inv hi.grid.bids.depth, hv, hflag⟩

theorem apply_refines {M : Nat} {b : HotOrderBook M} (hi : b.Inv) (e : Event)
    (hfit : (b.view.apply M e).1.orders.size ≤ 2 ^ 32) :
    (b.apply e).1.Inv ∧ (b.apply e).1.view = (b.view.apply M e).1 ∧
      (b.apply e).2 = (b.view.apply M e).2 := by
  obtain ⟨hw, hv, hflag⟩ := hi.wf.apply_refines hi.grid.grows e hfit
  exact ⟨hw.inv hi.grid.bids.depth, hv, hflag⟩

theorem wf_new (M : Nat) (instrumentId : UInt32) : (new M instrumentId).Wf :=
  ⟨grid_new M instrumentId, OrderSlab.inv_empty⟩

theorem inv_new {M : Nat} (hM : M < 2 ^ 32) (instrumentId : UInt32) : (new M instrumentId).Inv :=
  (wf_new M instrumentId).inv hM

theorem view_new (M : Nat) (instrumentId : UInt32) : (new M instrumentId).view = Book.empty := by
  ext1
  · simp [view, new, HalfBook.empty, HalfBook.ladder, Book.empty]
  · simp [view, new, HalfBook.empty, HalfBook.ladder, Book.empty]
  · rfl

/-- Along any run with at most 2^32 live orders at a time the hot book refines the abstract one. -/
theorem run_refines {M : Nat} (hM : M < 2 ^ 32) (instrumentId : UInt32) (es : List Event)
    (hfit : ∀ p, p <+: es → (Book.empty.run M p).orders.size ≤ 2 ^ 32) :
    ((new M instrumentId).run es).Inv ∧
      ((new M instrumentId).run es).view = Book.empty.run M es := by
  induction es using List.reverseRecOn with
  | nil => exact ⟨inv_new hM instrumentId, view_new M instrumentId⟩
  | append_singleton es e ih =>
    obtain ⟨hi, hv⟩ := ih (fun p hp => hfit p (hp.trans (List.prefix_append es [e])))
    have hlast := hfit (es ++ [e]) List.prefix_rfl
    simp only [run, Book.run, List.foldl_append, List.foldl_cons, List.foldl_nil] at hi hv hlast ⊢
    rw [← hv] at hlast ⊢
    obtain ⟨h1, h2, _⟩ := apply_refines hi e hlast
    exact ⟨h1, h2⟩

/-- A run of fewer than 2^32 events refines the abstract book whatever the depth. -/
theorem short_run_refines (M : Nat) (instrumentId : UInt32) (es : List Event)
    (hlen : es.length < 2 ^ 32) :
    ((new M instrumentId).run es).Wf ∧
      ((new M instrumentId).run es).view = Book.empty.run M es := by
  induction es using List.reverseRecOn with
  | nil => exact ⟨wf_new M instrumentId, view_new M instrumentId⟩
  | append_singleton es e ih =>
    have hsize := Book.size_empty_run M (es ++ [e])
    rw [List.length_append, List.length_singleton] at hlen hsize
    obtain ⟨hw, hv⟩ := ih (by omega)
    have hgrow := grows_run M instrumentId es hlen
    simp only [run, Book.run, List.foldl_append, List.foldl_cons, List.foldl_nil] at hw hv hsize hgrow ⊢
    rw [← hv] at hsize ⊢
    obtain ⟨h1, h2, _⟩ := hw.apply_refines hgrow e (by omega)
    exact ⟨h1, h2⟩

end HotOrderBook

end Flowlab.Core
