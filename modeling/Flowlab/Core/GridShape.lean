import Flowlab.Core.HotRefine

namespace Flowlab.Core

open Framework

/-- A level with an order on it, and no more than `n`. -/
def Level.Live (n : Nat) (l : Level) : Prop :=
  1 ≤ l.orderCount.toNat ∧ l.orderCount.toNat ≤ n

theorem Level.Live.mono {n m : Nat} {l : Level} (h : l.Live n) (hnm : n ≤ m) : l.Live m :=
  ⟨h.1, h.2.trans hnm⟩

theorem Level.live_added {n : Nat} (hn : n + 1 < 2 ^ 32) (price qty : UInt64) (o : Option Level)
    (l : Level) (ho : ∀ c ∈ o, c.Live n) (h : added price qty o = some l) : l.Live (n + 1) := by
  cases o with
  | none =>
    rw [← Option.some.inj h]
    exact ⟨Nat.le_refl _, Nat.le_add_left _ _⟩
  | some c =>
    obtain ⟨hlo, hhi⟩ := ho c rfl
    have hadd : (c.orderCount + 1).toNat = c.orderCount.toNat + 1 := by
      rw [UInt32.toNat_add]
      exact Nat.mod_eq_of_lt (show c.orderCount.toNat + 1 < 2 ^ 32 by omega)
    rw [← Option.some.inj h, Live, hadd]
    omega

/-- Giving up one order leaves a live level or none. -/
theorem Level.live_release {n : Nat} {c : Level} {q : UInt64} (h : c.Live n)
    (hz : satSub32 c.orderCount 1 ≠ 0) :
    Level.Live n { c with totalQty := q, orderCount := satSub32 c.orderCount 1 } := by
  have hone : (1 : UInt32).toNat = 1 := rfl
  have hsub := satSub32_toNat c.orderCount 1
  have hne : (satSub32 c.orderCount 1).toNat ≠ 0 := fun he => hz (UInt32.toNat_inj.mp he)
  obtain ⟨_, hhi⟩ := h
  exact ⟨Nat.pos_of_ne_zero hne, by dsimp only; omega⟩

theorem Level.live_deducted {n : Nat} (qty : UInt64) (release : Bool) (o : Option Level) (l : Level)
    (ho : ∀ c ∈ o, c.Live n) (h : deducted qty release o = some l) : l.Live n := by
  cases o with
  | none => simp [deducted] at h
  | some c =>
    have hc := ho c rfl
    simp only [deducted] at h
    split_ifs at h with hr hz
    · rw [← Option.some.inj h]
      exact live_release hc hz
    · rw [← Option.some.inj h]
      exact hc

theorem Level.live_deductedAnon {n : Nat} (qty : UInt64) (o : Option Level) (l : Level)
    (ho : ∀ c ∈ o, c.Live n) (h : deductedAnon qty o = some l) : l.Live n := by
  cases o with
  | none => simp [deductedAnon] at h
  | some c =>
    have hc := ho c rfl
    simp only [deductedAnon] at h
    split_ifs at h with he hz
    · rw [← Option.some.inj h]
      exact live_release hc hz
    · rw [← Option.some.inj h]
      exact hc

namespace HalfBook

/-- One side after `n` events: ordered live cells with orders on them, defaults behind. -/
structure Shaped {M : Nat} (n : Nat) (isBid : Bool) (h : HalfBook M) : Prop where
  wf : h.Wf isBid
  clean : h.Clean
  live : ∀ l ∈ h.ladder, l.Live n

theorem shaped_empty (M : Nat) (isBid : Bool) : (empty M).Shaped 0 isBid where
  wf := wf_empty M isBid
  clean := clean_empty M
  live l hl := by simp [empty, ladder] at hl

theorem Shaped.mono {M n m : Nat} {isBid : Bool} {h : HalfBook M} (hs : h.Shaped n isBid)
    (hnm : n ≤ m) : h.Shaped m isBid where
  wf := hs.wf
  clean := hs.clean
  live l hl := (hs.live l hl).mono hnm

theorem Shaped.deduct {M n : Nat} {isBid : Bool} {h : HalfBook M} (hs : h.Shaped n isBid)
    (price qty : UInt64) (release : Bool) : (h.deduct isBid price qty release).1.Shaped n isBid := by
  obtain ⟨hw, hlad, _⟩ := hs.wf.deduct_spec price qty release
  refine ⟨hw, hs.wf.deduct_clean hs.clean price qty release, ?_⟩
  rw [hlad]
  exact KeyedList.forall_mem_alter (fun _ h => h) (Level.live_deducted qty release) hs.live

theorem Shaped.deductAnon {M n : Nat} {isBid : Bool} {h : HalfBook M} (hs : h.Shaped n isBid)
    (price qty : UInt64) : (h.deductAnon isBid price qty).1.Shaped n isBid := by
  obtain ⟨hw, hlad, _⟩ := hs.wf.deductAnon_spec price qty
  refine ⟨hw, hs.wf.deductAnon_clean hs.clean price qty, ?_⟩
  rw [hlad]
  exact KeyedList.forall_mem_alter (fun _ h => h) (Level.live_deductedAnon qty) hs.live

theorem Shaped.addLevel {M n : Nat} {isBid : Bool} {h h' : HalfBook M} (hs : h.Shaped n isBid)
    (hgrow : h.Grows) (hn : n + 1 < 2 ^ 32) {price qty : UInt64}
    (ha : h.addLevel isBid price qty = some h') : h'.Shaped (n + 1) isBid := by
  obtain ⟨hw, hlad, _, hclean⟩ := (hs.wf.addLevel_spec hgrow price qty).2 h' ha
  refine ⟨hw, hclean hs.clean, ?_⟩
  rw [hlad]
  exact KeyedList.forall_mem_alter (fun _ h => h.mono (Nat.le_succ n)) (Level.live_added hn price qty) hs.live

/-- A cell past the count is unused. -/
theorem Clean.cell {M : Nat} {h : HalfBook M} (hc : h.Clean) {i : Nat} (hi : h.count.toNat ≤ i) :
    h.cell i = default := by
  have hsplit : i = h.count.toNat + (i - h.count.toNat) := by omega
  have hget : h.levels.toList[i]? = (List.replicate (M - h.count.toNat) default)[i - h.count.toNat]? := by
    rw [← hc, List.getElem?_drop, ← hsplit]
  rw [HalfBook.cell, List.getD_eq_getElem?_getD, hget, List.getElem?_replicate]
  split_ifs <;> rfl

end HalfBook

namespace HotOrderBook

def Shaped {M : Nat} (n : Nat) (b : HotOrderBook M) : Prop :=
  ∀ isBid, (b.half isBid).Shaped n isBid

theorem shaped_setHalf {M n : Nat} {b : HotOrderBook M} (hs : b.Shaped n) {isBid : Bool}
    {h : HalfBook M} (hh : h.Shaped n isBid) : (b.setHalf isBid h).Shaped n := by
  intro i
  cases isBid <;> cases i <;> first | exact hh | exact hs _

theorem shaped_orders {M n : Nat} {b : HotOrderBook M} (hs : b.Shaped n) (s : OrderSlab) :
    ({ b with orders := s } : HotOrderBook M).Shaped n := hs

theorem shaped_deductOn {M n : Nat} {b : HotOrderBook M} (hs : b.Shaped n) (isBid : Bool)
    (price qty : UInt64) (release : Bool) : (b.deductOn isBid price qty release).1.Shaped n :=
  shaped_setHalf hs ((hs isBid).deduct price qty release)

theorem Shaped.later {M n : Nat} {b : HotOrderBook M} (hs : b.Shaped n) : b.Shaped (n + 1) :=
  fun i => (hs i).mono (Nat.le_succ n)

theorem shaped_addOrder {M n : Nat} {b : HotOrderBook M} (hs : b.Shaped n) (hgrow : b.Grows)
    (hn : n + 1 < 2 ^ 32) (e : Event) : (b.addOrder e).1.Shaped (n + 1) := by
  apply addOrder_rule hs.later
  · intro h ha
    exact shaped_setHalf hs.later ((hs _).addLevel (hgrow _) hn ha)
  · intro c _ _ hc
    exact shaped_orders hc _

theorem kept_shaped {M n : Nat} : Kept (Shaped (M := M) n) where
  remove _ _ hs := shaped_orders hs _
  setMeta _ _ _ hs := shaped_orders hs _
  deductOn _ isBid price qty release hs := shaped_deductOn hs isBid price qty release
  tradeAnon _ price qty isBid hs := shaped_setHalf hs ((hs isBid).deductAnon price qty)

theorem shaped_apply {M n : Nat} {b : HotOrderBook M} (hs : b.Shaped n) (hgrow : b.Grows)
    (hn : n + 1 < 2 ^ 32) (e : Event) : (b.apply e).1.Shaped (n + 1) := by
  apply (kept_shaped.and kept_grows).apply (Q := Shaped (n + 1))
  · intro c hc
    exact hc.1.later
  · intro c hc
    exact shaped_addOrder hc.1 hc.2 hn e
  · exact ⟨hs, hgrow⟩

theorem shaped_run (M : Nat) (instrumentId : UInt32) (es : List Event) (hlen : es.length < 2 ^ 32) :
    ((new M instrumentId).run es).Shaped es.length := by
  induction es using List.reverseRecOn with
  | nil =>
    intro i
    cases i <;> exact HalfBook.shaped_empty M _
  | append_singleton es e ih =>
    rw [List.length_append, List.length_singleton] at hlen
    have hgrow := grows_run M instrumentId es hlen
    have hs := shaped_apply (ih (by omega)) hgrow hlen e
    rw [run, List.foldl_append, List.length_append]
    exact hs

/-- What the ladder code takes for granted: counts within the array, bids descending and asks
ascending, an order on every live level, defaults behind; so the searches of `add_order` and
`find_level` split the live cells, and the copies that open and close a cell stay in the array. -/
structure InShape {M : Nat} (b : HotOrderBook M) : Prop where
  bidCount : b.bids.count.toNat ≤ M
  askCount : b.asks.count.toNat ≤ M
  bids : b.bids.ladder.Pairwise (fun l r => l.price > r.price)
  asks : b.asks.ladder.Pairwise (fun l r => l.price < r.price)
  live : ∀ isBid, ∀ l ∈ (b.half isBid).ladder, 1 ≤ l.orderCount
  unused : ∀ isBid i, (b.half isBid).count.toNat ≤ i → (b.half isBid).cell i = default
  searched : ∀ isBid price i, i < (b.half isBid).count.toNat →
    (ahead isBid ((b.half isBid).cell i).price price = true ↔
      i < (b.half isBid).insertionPoint isBid price)
  opened : ∀ isBid price, (b.half isBid).count.toNat < M →
    (b.half isBid).insertionPoint isBid price + 1 +
      ((b.half isBid).count.toNat - (b.half isBid).insertionPoint isBid price) ≤ M
  closed : ∀ isBid price i, (b.half isBid).findLevel isBid price = some i →
    i < (b.half isBid).count.toNat ∧ i + 1 + ((b.half isBid).count.toNat - i - 1) ≤ M

theorem inShape_of_shaped {M n : Nat} {b : HotOrderBook M} (hs : b.Shaped n) : b.InShape where
  bidCount := (hs true).wf.count_le
  askCount := (hs false).wf.count_le
  bids := by simpa [KeyedList.Sorted, ahead, half] using (hs true).wf.sorted
  asks := by simpa [KeyedList.Sorted, ahead, half] using (hs false).wf.sorted
  live isBid l hl := UInt32.le_iff_toNat_le.mpr ((hs isBid).live l hl).1
  unused isBid i hi := (hs isBid).clean.cell hi
  searched isBid price i hi := by
    have hw := (hs isBid).wf
    have hlen : i < (b.half isBid).ladder.length := by rwa [HalfBook.ladder_length hw.count_le]
    have hcell := HalfBook.ladder_cell hw.count_le hi
    rw [List.getElem?_eq_getElem hlen] at hcell
    rw [HalfBook.insertionPoint_eq, ← Option.some.inj hcell]
    exact KeyedList.before_iff_lt_rank price _ hw.sorted i hlen
  opened isBid price hlt := by
    have hw := (hs isBid).wf
    have hle : KeyedList.rank Level.price (ahead isBid) price (b.half isBid).ladder ≤
        (b.half isBid).ladder.length :=
      KeyedList.rank_le price _
    rw [← HalfBook.insertionPoint_eq, HalfBook.ladder_length hw.count_le] at hle
    omega
  closed isBid price i hf := by
    have hw := (hs isBid).wf
    have hle := hw.count_le
    have hlt := (HalfBook.findLevel_some hw hf).1
    exact ⟨hlt, by omega⟩

end HotOrderBook

/-- Whatever the events, as long as they are fewer than 2^32. -/
theorem hotBook_inShape (M : Nat) (instrumentId : UInt32) (es : List Event)
    (hlen : es.length < 2 ^ 32) : ((HotOrderBook.new M instrumentId).run es).InShape :=
  HotOrderBook.inShape_of_shaped (HotOrderBook.shaped_run M instrumentId es hlen)

/-- An anonymous add, a level in front of it, an anonymous trade that empties the first. -/
theorem hotBook_inShape_anonymous :
    ((HotOrderBook.new 2 1).run [⟨0, 10, 5, 0, 1, 1, 0⟩, ⟨1, 11, 6, 9, 1, 1, 0⟩,
      ⟨2, 10, 7, 0, 1, 4, 0⟩]).InShape :=
  hotBook_inShape 2 1 _ (by decide)

end Flowlab.Core
