import Flowlab.Core.L2Hash

namespace Flowlab.Core

open Std Framework

theorem CppOrderBook.size_run {M : Nat} (hM : M < 2 ^ 32) (bids asks : Vector Level M)
    (es : List Event) : ((new bids asks).run es).orders.size ≤ es.length := by
  have hsize := Book.size_empty_run M es
  rwa [← (run_refines hM bids asks es).2] at hsize

/-- What the hot book and the C++ book have in common after the same events. -/
structure Agree {M : Nat} (x : Xxh3) (b : HotOrderBook M) (c : CppOrderBook M) : Prop where
  bids : b.bids.ladder = c.bids.ladder
  asks : b.asks.ladder = c.asks.ladder
  orders : ∀ orderId, b.orderMeta orderId = c.orders[orderId]?
  hash : b.canonicalL2Hash x = c.flowlabOrderbookHash x

/-- Equal views are all that the orders' lookups and the hash depend on. -/
theorem agree_of_view {M : Nat} (x : Xxh3) {b : HotOrderBook M} {c : CppOrderBook M} (hi : c.Inv)
    (hv : b.view = c.view) : Agree x b c := by
  have hb : b.bids.ladder = c.bids.ladder := congrArg Book.bids hv
  have ha : b.asks.ladder = c.asks.ladder := congrArg Book.asks hv
  refine ⟨hb, ha, ?_, ?_⟩
  · intro orderId
    have ho : b.orders.live = c.orders := congrArg Book.orders hv
    rw [← ho, OrderSlab.live_get]
    rfl
  · simp only [HotOrderBook.canonicalL2Hash, CppOrderBook.flowlabOrderbookHash,
      CppHalf.hashLoop_eq x hi.bids.count_le, CppHalf.hashLoop_eq x hi.asks.count_le, hb, ha]

/-- The Rust and the C++ book agree after every event of a run, whatever the C++ arrays held at
first, as long as no more than 2^32 orders are live at a time. -/
theorem hotBook_agrees_cppBook (x : Xxh3) (instrumentId : UInt32) (bids asks : Vector Level 256)
    (es : List Event)
    (hfit : ∀ p, p <+: es → ((CppOrderBook.new bids asks).run p).orders.size ≤ 2 ^ 32)
    (p : List Event) (hp : p <+: es) :
    Agree x ((HotOrderBook.new 256 instrumentId).run p) ((CppOrderBook.new bids asks).run p) := by
  have hM : 256 < 2 ^ 32 := by norm_num
  obtain ⟨hi, hv⟩ := CppOrderBook.run_refines hM bids asks p
  have hlive (q : List Event) (hq : q <+: p) : (Book.empty.run 256 q).orders.size ≤ 2 ^ 32 := by
    rw [← (CppOrderBook.run_refines hM bids asks q).2]
    exact hfit q (hq.trans hp)
  have hhot := (HotOrderBook.run_refines hM instrumentId p hlive).2
  exact agree_of_view x hi (hhot.trans hv.symm)

/-- A short run over arrays that start with garbage. -/
theorem hotBook_agrees_cppBook_short :
    Agree ⟨fun _ => 3, fun _ h => h + 1⟩
      ((HotOrderBook.new 256 7).run [⟨0, 10, 5, 1, 7, 1, 0⟩, ⟨1, 9, 4, 1, 7, 3, 1⟩, ⟨2, 0, 1, 1, 7, 4, 0⟩])
      ((CppOrderBook.new (Vector.replicate 256 ⟨1, 2, 3⟩) (Vector.replicate 256 ⟨4, 5, 6⟩)).run
        [⟨0, 10, 5, 1, 7, 1, 0⟩, ⟨1, 9, 4, 1, 7, 3, 1⟩, ⟨2, 0, 1, 1, 7, 4, 0⟩]) :=
  hotBook_agrees_cppBook _ _ _ _
    [⟨0, 10, 5, 1, 7, 1, 0⟩, ⟨1, 9, 4, 1, 7, 3, 1⟩, ⟨2, 0, 1, 1, 7, 4, 0⟩]
    (fun p hp => (CppOrderBook.size_run (by norm_num) _ _ p).trans
      (hp.length_le.trans (by norm_num))) _ List.prefix_rfl

/-! A run that leaves the slab's slot numbers behind: adds of ever new ids at one price. -/

def floodEvent (q : UInt64) : Event := ⟨0, 1, q, q, 0, 1, 0⟩

def flood (n : Nat) : List Event := (List.range n).map (fun i => floodEvent (UInt64.ofNat (i + 1)))

theorem flood_succ (n : Nat) : flood (n + 1) = flood n ++ [floodEvent (UInt64.ofNat (n + 1))] := by
  simp only [flood, List.range_succ, List.map_append, List.map_cons, List.map_nil]

theorem length_flood (n : Nat) : (flood n).length = n := by
  simp [flood]

theorem floodId_toNat {i : Nat} (hi : i ≤ 2 ^ 32) : (UInt64.ofNat (i + 1)).toNat = i + 1 :=
  UInt64.toNat_ofNat_of_lt' (show i + 1 < 2 ^ 64 by omega)

theorem floodId_ne {i : Nat} (hi : i ≤ 2 ^ 32) : UInt64.ofNat (i + 1) ≠ 0 := by
  intro h
  have hn := floodId_toNat hi
  rw [h, UInt64.toNat_zero] at hn
  omega

/-- Nothing but the one bid level of a flood. -/
def Book.Narrow (k : Book) : Prop := k.bids = [] ∨ ∃ l : Level, k.bids = [l] ∧ l.price = 1

theorem Book.narrow_step {k : Book} (h : k.Narrow) {q : UInt64} (hq : q ≠ 0) :
    (k.apply 256 (floodEvent q)).1.Narrow ∧
      (k.apply 256 (floodEvent q)).1.orders = k.orders.insert q ⟨1, q, 0⟩ := by
  have happ : k.apply 256 (floodEvent q) = k.addOrder 256 (floodEvent q) := rfl
  rw [happ]
  rcases h with h | ⟨l, h, hp⟩
  · simp [addOrder, alterSide, floodEvent, side, h, hq, Narrow, added, KeyedList.alter]
  · simp [addOrder, alterSide, floodEvent, side, h, hp, hq, Narrow, added, KeyedList.alter, ahead]

theorem Book.run_flood {n : Nat} (hn : n ≤ 2 ^ 32 + 1) :
    (Book.empty.run 256 (flood n)).Narrow ∧
    (∀ k : UInt64, n < k.toNat → (Book.empty.run 256 (flood n)).orders[k]? = none) := by
  induction n with
  | zero => exact ⟨Or.inl rfl, fun k _ => by simp [flood, Book.run, Book.empty]⟩
  | succ n ih =>
    obtain ⟨hnar, hfree⟩ := ih (by omega)
    obtain ⟨hs, ho⟩ := Book.narrow_step hnar (floodId_ne (i := n) (by omega))
    have hrun : Book.empty.run 256 (flood (n + 1)) =
        ((Book.empty.run 256 (flood n)).apply 256 (floodEvent (UInt64.ofNat (n + 1)))).1 := by
      rw [flood_succ, Book.run, List.foldl_append]
      rfl
    rw [hrun]
    refine ⟨hs, ?_⟩
    intro k hk
    have hne : k ≠ UInt64.ofNat (n + 1) := by
      intro he
      rw [he, floodId_toNat (by omega)] at hk
      omega
    rw [ho, FiniteMap.get_insert, if_neg hne]
    exact hfree k (by omega)

namespace HotOrderBook

/-- With a level to spare an add is placed and reaches the slab. -/
theorem addOrder_orders {M : Nat} {b : HotOrderBook M} (hg : b.GridInv) {e : Event}
    (hroom : (b.half (decide (e.side = 0))).ladder.length < M) (hid : e.orderId ≠ 0) :
    (b.addOrder e).1.orders = b.orders.insert e.orderId ⟨e.price, e.qty, e.side⟩ ∧
      (b.addOrder e).2 = true := by
  have hspec := (HalfBook.addLevel_spec (half_inv hg (decide (e.side = 0))) e.price e.qty).1
  simp only [addOrder]
  cases ha : (b.half (decide (e.side = 0))).addLevel (decide (e.side = 0)) e.price e.qty with
  | none => exact absurd (hspec ha).2 (by omega)
  | some h => simp only [hid, ne_eq, not_false_iff, if_true, setHalf_orders, and_self]

theorem addOrder_floodEvent {b : HotOrderBook 256} (hg : b.GridInv)
    (hroom : b.bids.ladder.length < 256) {q : UInt64} (hq : q ≠ 0) :
    (b.addOrder (floodEvent q)).1.orders = b.orders.insert q ⟨1, q, 0⟩ ∧
      (b.addOrder (floodEvent q)).2 = true :=
  addOrder_orders (e := floodEvent q) hg hroom hq

theorem run_succ_flood (n : Nat) :
    (new 256 0).run (flood (n + 1)) =
      (((new 256 0).run (flood n)).addOrder (floodEvent (UInt64.ofNat (n + 1)))).1 := by
  rw [flood_succ, run, List.foldl_append]
  rfl

/-- Up to 2^32 orders the flood fills the slab slot by slot and the next id is unknown to it. -/
theorem run_flood {n : Nat} (hn : n ≤ 2 ^ 32) :
    ((new 256 0).run (flood n)).Inv ∧
    ((new 256 0).run (flood n)).bids.ladder.length < 256 ∧
    ((new 256 0).run (flood n)).orders.index[UInt64.ofNat (n + 1)]? = none := by
  have hfit (p : List Event) (hp : p <+: flood n) :
      (Book.empty.run 256 p).orders.size ≤ 2 ^ 32 := by
    have hsize := Book.size_empty_run 256 p
    have hlen := hp.length_le
    rw [length_flood] at hlen
    omega
  obtain ⟨hi, hv⟩ := run_refines (M := 256) (by norm_num) 0 (flood n) hfit
  obtain ⟨hnar, hfree⟩ := Book.run_flood (n := n) (by omega)
  refine ⟨hi, ?_, ?_⟩
  · have hb : ((new 256 0).run (flood n)).bids.ladder = (Book.empty.run 256 (flood n)).bids :=
      congrArg Book.bids hv
    rw [hb]
    rcases hnar with h | ⟨l, h, _⟩ <;> simp [h]
  · rw [← OrderSlab.get_eq_none hi.slab, ← OrderSlab.live_get]
    have ho : ((new 256 0).run (flood n)).orders.live = (Book.empty.run 256 (flood n)).orders :=
      congrArg Book.orders hv
    rw [ho]
    exact hfree _ (by rw [floodId_toNat hn]; omega)

theorem slab_flood {n : Nat} (hn : n ≤ 2 ^ 32) :
    ((new 256 0).run (flood n)).orders.data.length = n ∧
    ((new 256 0).run (flood n)).orders.freeList = [] ∧
    (0 < n → ((new 256 0).run (flood n)).orders.data[0]? = some ⟨1, 1, 0⟩) := by
  induction n with
  | zero => exact ⟨rfl, rfl, fun h => absurd h (by omega)⟩
  | succ n ih =>
    obtain ⟨hlen, hfree, hfirst⟩ := ih (by omega)
    obtain ⟨hi, hroom, hnew⟩ := run_flood (n := n) (by omega)
    rw [run_succ_flood, (addOrder_floodEvent hi.grid hroom (floodId_ne (by omega))).1]
    generalize (new 256 0).run (flood n) = b at *
    simp only [OrderSlab.insert, hnew, hfree, List.getLast?_nil]
    refine ⟨by simp [hlen], trivial, ?_⟩
    intro _
    rcases Nat.eq_zero_or_pos n with hz | hpos
    · subst hz
      rw [List.length_eq_zero_iff.mp hlen]
      rfl
    · rw [List.getElem?_append_left (by omega)]
      exact hfirst hpos

/-- The order that takes slot number 2^32 is filed under slot 0. -/
theorem orderMeta_flood {n : Nat} (hn : n = 2 ^ 32) :
    ((new 256 0).run (flood (n + 1))).orderMeta (UInt64.ofNat (n + 1)) = some ⟨1, 1, 0⟩ := by
  obtain ⟨hlen, hfree, hfirst⟩ := slab_flood (n := n) (by omega)
  obtain ⟨hi, hroom, hnew⟩ := run_flood (n := n) (by omega)
  have hslot : UInt32.ofNat n = 0 := by rw [hn]; decide
  rw [orderMeta, run_succ_flood, (addOrder_floodEvent hi.grid hroom (floodId_ne (by omega))).1]
  generalize (new 256 0).run (flood n) = b at *
  simp only [OrderSlab.insert, hnew, hfree, List.getLast?_nil, OrderSlab.get,
    FiniteMap.get_insert, if_true, hlen, hslot]
  rw [UInt32.toNat_zero, List.getElem?_append_left (by omega)]
  exact hfirst (by omega)

end HotOrderBook

theorem Book.orders_flood {n : Nat} (hn : n ≤ 2 ^ 32) :
    (Book.empty.run 256 (flood (n + 1))).orders[UInt64.ofNat (n + 1)]? =
      some ⟨1, UInt64.ofNat (n + 1), 0⟩ := by
  have hs := (Book.narrow_step (Book.run_flood (n := n) (by omega)).1 (floodId_ne hn)).2
  have hrun : Book.empty.run 256 (flood (n + 1)) =
      ((Book.empty.run 256 (flood n)).apply 256 (floodEvent (UInt64.ofNat (n + 1)))).1 := by
    rw [flood_succ, Book.run, List.foldl_append]
    rfl
  rw [hrun, hs, FiniteMap.get_insert, if_pos rfl]

theorem orderMeta_flood_ne {n : Nat} (hn : n = 2 ^ 32) (bids asks : Vector Level 256) :
    ((HotOrderBook.new 256 0).run (flood (n + 1))).orderMeta (UInt64.ofNat (n + 1)) ≠
      ((CppOrderBook.new bids asks).run (flood (n + 1))).orders[UInt64.ofNat (n + 1)]? := by
  have hc := (CppOrderBook.run_refines (M := 256) (by norm_num) bids asks (flood (n + 1))).2
  have ho := congrArg Book.orders hc
  change CppOrderBook.orders _ = _ at ho
  rw [HotOrderBook.orderMeta_flood hn, ho, Book.orders_flood (by omega)]
  intro he
  have hq := congrArg (fun m => m.qty.toNat) (Option.some.inj he)
  rw [floodId_toNat (by omega)] at hq
  change 1 = n + 1 at hq
  omega

/-- With 2^32 + 1 live orders the two books disagree on the youngest of them. -/
theorem hotBook_parts_from_cppBook :
    ¬ Agree ⟨fun _ => 0, fun _ _ => 0⟩ ((HotOrderBook.new 256 0).run (flood (2 ^ 32 + 1)))
      ((CppOrderBook.new (Vector.replicate 256 default) (Vector.replicate 256 default)).run
        (flood (2 ^ 32 + 1))) :=
  fun h => orderMeta_flood_ne rfl _ _ (h.orders (UInt64.ofNat (2 ^ 32 + 1)))

end Flowlab.Core
