import Flowlab.Core.Lanes

namespace Flowlab.Core

open Std Framework

/-- `R'` holds at least what `R` holds, everywhere. -/
def Residue.Le (R R' : Residue) : Prop := ∀ a, (R a).1 ≤ (R' a).1 ∧ (R a).2 ≤ (R' a).2

namespace Book

variable {M n : Nat} {k : Book} {R : Residue} {e : Event} {m : OrderMeta}

/-- The cancel half takes the order or part of it; what it leaves is overwritten by the add half. -/
theorem Owes.modify (h : k.Owes R n) (hid : e.orderId ≠ 0) (hqty : e.qty.toNat < 2 ^ 32)
    (hn : n + 1 < 2 ^ 31) (hm : k.orders[e.orderId]? = some m)
    (hflag : ((k.cancelOrder e).1.addOrder M e).2 = true) :
    ((k.cancelOrder e).1.addOrder M e).1.orders = k.orders.insert e.orderId e.rests ∧
      ((k.cancelOrder e).1.addOrder M e).1.Owes
        (if e.qty = 0 ∨ m.qty ≤ e.qty then R else R.bump m.place (m.qty - e.qty).toNat) (n + 1) := by
  have hcancel := h.cancelOrder hid
  have hc : (k.cancelOrder e).1.orders =
      FiniteMap.put k.orders e.orderId (cancelled e.qty m).1 := by
    rw [cancelOrder_settle hid, orders_settle, hm, Option.bind_some]
  have hget : (k.cancelOrder e).1.orders[e.orderId]? = (cancelled e.qty m).1 := by
    rw [hc, FiniteMap.get_put, if_pos rfl]
  rw [addOrder_place hid hflag]
  refine ⟨?_, ?_⟩
  · rw [orders_place, hc]
    exact FiniteMap.put_put k.orders e.orderId _ (some e.rests)
  · rw [cancelled_fst] at hget
    split_ifs at hget ⊢ with hfull
    · exact hcancel.place_new hqty hn hget
    · exact hcancel.place_live hqty hn hget

/-- The add half alone overwrites the whole order. -/
theorem Owes.addHalf (h : k.Owes R n) (hid : e.orderId ≠ 0) (hqty : e.qty.toNat < 2 ^ 32)
    (hn : n + 1 < 2 ^ 31) (hm : k.orders[e.orderId]? = some m)
    (hflag : (k.addOrder M e).2 = true) :
    (k.addOrder M e).1.orders = k.orders.insert e.orderId e.rests ∧
      (k.addOrder M e).1.Owes (R.bump m.place m.qty.toNat) (n + 1) := by
  rw [addOrder_place hid hflag]
  exact ⟨orders_place k e, h.place_live hqty hn hm⟩

end Book

/-- What the cancel half takes shows as a difference of residues. -/
theorem Residue.modify_lt {R R' : Residue} (h : R.Le R') {e : Event} {m : OrderMeta} :
    Residue.Le (if e.qty = 0 ∨ m.qty ≤ e.qty then R else R.bump m.place (m.qty - e.qty).toNat)
        (R'.bump m.place m.qty.toNat) ∧
      (if e.qty = 0 ∨ m.qty ≤ e.qty then R else R.bump m.place (m.qty - e.qty).toNat) m.place ≠
        R'.bump m.place m.qty.toNat m.place := by
  have hplace := h m.place
  by_cases hfull : e.qty = 0 ∨ m.qty ≤ e.qty
  · rw [if_pos hfull]
    refine ⟨?_, ?_⟩
    · intro a
      have ha := h a
      rw [bump_apply]
      dsimp only
      omega
    · intro heq
      have hsnd := congrArg Prod.snd heq
      simp only [bump_apply, ↓reduceIte] at hsnd
      omega
  · have hle : e.qty ≤ m.qty := UInt64.le_of_lt (UInt64.not_le.mp (not_or.mp hfull).2)
    have hsub := UInt64.toNat_sub_of_le m.qty e.qty hle
    have hlt := UInt64.le_iff_toNat_le.mp hle
    have hpos : e.qty.toNat ≠ 0 := fun hz => hfull (Or.inl (UInt64.toNat_inj.mp hz))
    rw [if_neg hfull]
    refine ⟨?_, ?_⟩
    · intro a
      have ha := h a
      rw [bump_apply, bump_apply]
      dsimp only
      split_ifs <;> omega
    · intro heq
      have hfst := congrArg Prod.fst heq
      simp only [bump_apply, ↓reduceIte] at hfst
      omega

namespace HotOrderBook

/-- A batch of modifies, each of an id that is live when it is reached, none refused, neither one by
one nor in the lane. -/
structure ModifiesLive {M : Nat} (b : HotOrderBook M) (batch : List Event) : Prop where
  kind : ∀ e ∈ batch, EventType.fromU8 e.eventType = some .orderModify
  live : ∀ p e, p ++ [e] <+: batch → ((b.run p).orderMeta e.orderId).isSome = true
  serial : ∀ p e, p ++ [e] <+: batch → ((b.run p).apply e).2 = true
  lanes : ∀ p e, p ++ [e] <+: batch → ((b.applyLaneAdds p).1.addOrder e).2 = true

/-- The lanes run the add half of each modify and nothing else. -/
theorem applyLanes_modifies {M : Nat} (b : HotOrderBook M) {batch : List Event}
    (hkind : ∀ e ∈ batch, EventType.fromU8 e.eventType = some .orderModify) :
    (b.applyLanes batch).1 = b.run (batch.map Event.asAdd) ∧
      (b.applyLaneAdds batch).1 = b.run (batch.map Event.asAdd) := by
  have htype {e : Event} (he : e ∈ batch) : e.eventType = 3 :=
    (EventType.fromU8_iff _ _).mp (hkind e he)
  have hadds : batch.filter (fun e => e.eventType == EventType.orderAdd.toU8 ||
      e.eventType == EventType.orderModify.toU8) = batch := by
    rw [List.filter_eq_self]
    intro e he
    simp [htype he, EventType.toU8]
  have hnone (t : EventType) (ht : t.toU8 ≠ 3) : batch.filter (fun e => e.eventType == t.toU8) = [] := by
    rw [List.filter_eq_nil_iff]
    intro e he
    simp [htype he, Ne.symm ht]
  have hlane : (b.applyLaneAdds batch).1 = b.run (batch.map Event.asAdd) := by
    rw [applyLaneAdds, lane_fst, hadds, run, List.foldl_map]
    rfl
  refine ⟨?_, hlane⟩
  simp only [applyLanes, applyLaneCancels, applyLaneTrades, lane_fst]
  rw [hnone .trade (by decide), hnone .orderCancel (by decide)]
  exact hlane

section

variable {M : Nat} {history batch : List Event}

/-- After each part of the batch the live orders are the same in both executions, and the lanes owe
at least what the serial loop owes: more, once a modify was run. -/
structure Apart (M : Nat) (history p : List Event) (Rs Rl : Residue) : Prop where
  serial : ((Book.empty.run M history).run M p).Owes Rs (history.length + p.length)
  lanes : ((Book.empty.run M history).run M (p.map Event.asAdd)).Owes Rl (history.length + p.length)
  orders : ((Book.empty.run M history).run M p).orders =
    ((Book.empty.run M history).run M (p.map Event.asAdd)).orders
  le : Rs.Le Rl
  ne : p ≠ [] → ∃ a, Rs a ≠ Rl a

theorem Apart.append {p : List Event} {Rs Rl : Residue} (h : Apart M history p Rs Rl) {e : Event}
    (hkind : EventType.fromU8 e.eventType = some .orderModify) (hid : e.orderId ≠ 0)
    (hqty : e.qty.toNat < 2 ^ 32) (hn : history.length + p.length + 1 < 2 ^ 31)
    (hlive : (((Book.empty.run M history).run M p).orders[e.orderId]?).isSome = true)
    (hserial : (((Book.empty.run M history).run M p).apply M e).2 = true)
    (hlanes : (((Book.empty.run M history).run M (p.map Event.asAdd)).addOrder M e).2 = true) :
    ∃ Rs' Rl', Apart M history (p ++ [e]) Rs' Rl' := by
  obtain ⟨m, hm⟩ := Option.isSome_iff_exists.mp hlive
  have hm' := hm
  rw [h.orders] at hm'
  have happly (k : Book) : k.apply M e = (k.cancelOrder e).1.addOrder M e := by
    simp only [Book.apply, hkind]
  have hrun (k : Book) : k.run M (p ++ [e]) = (((k.run M p).cancelOrder e).1.addOrder M e).1 := by
    rw [Book.run, List.foldl_append, List.foldl_cons, List.foldl_nil, happly]
    rfl
  have hrun' (k : Book) : k.run M ((p ++ [e]).map Event.asAdd) =
      ((k.run M (p.map Event.asAdd)).addOrder M e).1 := by
    rw [List.map_append, Book.run, List.foldl_append]
    rfl
  rw [happly] at hserial
  obtain ⟨ho, hs⟩ := h.serial.modify hid hqty hn hm hserial
  obtain ⟨ho', hl⟩ := h.lanes.addHalf hid hqty hn hm' hlanes
  obtain ⟨hle, hne⟩ := Residue.modify_lt h.le (e := e) (m := m)
  refine ⟨_, _, ?_, ?_, ?_, hle, fun _ => ⟨m.place, hne⟩⟩
  · rw [hrun, List.length_append]
    exact hs
  · rw [hrun', List.length_append]
    exact hl
  · rw [hrun, hrun', ho, ho', h.orders]

theorem exists_apart (instrumentId : UInt32)
    (hhist : ∀ e ∈ history, e.orderId ≠ 0 ∧ e.qty.toNat < 2 ^ 32)
    (hbatch : ((new M instrumentId).run history).ModifiesLive batch)
    (hev : ∀ e ∈ batch, e.orderId ≠ 0 ∧ e.qty.toNat < 2 ^ 32)
    (hlen : history.length + batch.length < 2 ^ 31) :
    ∃ Rs Rl, Apart M history batch Rs Rl := by
  obtain ⟨R, hR⟩ := Book.exists_owes_run M history hhist (by omega)
  have hgen (p : List Event) (hp : p <+: batch) : ∃ Rs Rl, Apart M history p Rs Rl := by
    induction p using List.reverseRecOn with
    | nil => exact ⟨R, R, hR, hR, rfl, fun a => ⟨Nat.le_refl _, Nat.le_refl _⟩, fun h => absurd rfl h⟩
    | append_singleton p e ih =>
      have hpre : p <+: batch := (List.prefix_append p [e]).trans hp
      have hplen := hp.length_le
      rw [List.length_append, List.length_singleton] at hplen
      have hmem : e ∈ batch := hp.subset (by simp)
      obtain ⟨Rs, Rl, hap⟩ := ih hpre
      refine hap.append (hbatch.kind e hmem) (hev e hmem).1 (hev e hmem).2 (by omega) ?_ ?_ ?_
      · have hlive := hbatch.live p e hp
        rw [← view_run_run instrumentId history p (by omega), view, OrderSlab.live_get]
        exact hlive
      · rw [← flag_run_run instrumentId history p (by omega)]
        exact hbatch.serial p e hp
      · have hl := hbatch.lanes p e hp
        rw [(applyLanes_modifies _ (fun d hd => hbatch.kind d (hpre.subset hd))).2] at hl
        have hadd := flag_run_run (M := M) instrumentId history (p.map Event.asAdd)
          (by rw [List.length_map]; omega) e.asAdd
        exact hadd.symm.trans hl
  exact hgen batch List.prefix_rfl

end

end HotOrderBook

/-- Over a batch of modifies of live ids the lanes end as the serial loop does when the batch is
empty, and, with quantities and event counts that keep every level total exact, only then. -/
theorem applyLanes_modifies_iff (M : Nat) (instrumentId : UInt32) (history batch : List Event)
    (hid : ∀ e ∈ history ++ batch, e.orderId ≠ 0)
    (hbatch : ((HotOrderBook.new M instrumentId).run history).ModifiesLive batch) :
    (batch = [] → (((HotOrderBook.new M instrumentId).run history).applyLanes batch).1.view =
      (((HotOrderBook.new M instrumentId).run history).run batch).view) ∧
    ((∀ e ∈ history ++ batch, e.qty.toNat < 2 ^ 32) → history.length + batch.length < 2 ^ 31 →
      (((HotOrderBook.new M instrumentId).run history).applyLanes batch).1.view =
        (((HotOrderBook.new M instrumentId).run history).run batch).view → batch = []) := by
  refine ⟨?_, ?_⟩
  · intro hb
    rw [hb]
    rfl
  · intro hqty hlen hview
    by_contra hne
    obtain ⟨Rs, Rl, hap⟩ := HotOrderBook.exists_apart instrumentId
      (fun e he => ⟨hid e (List.mem_append_left _ he), hqty e (List.mem_append_left _ he)⟩) hbatch
      (fun e he => ⟨hid e (List.mem_append_right _ he), hqty e (List.mem_append_right _ he)⟩) hlen
    have hrun (p : List Event) (hp : p.length = batch.length) :
        (((HotOrderBook.new M instrumentId).run history).run p).view =
          (Book.empty.run M history).run M p :=
      HotOrderBook.view_run_run instrumentId history p (by omega)
    rw [(HotOrderBook.applyLanes_modifies _ hbatch.kind).1, hrun _ (List.length_map _), hrun _ rfl]
      at hview
    obtain ⟨a, ha⟩ := hap.ne hne
    have hl := hap.lanes
    rw [hview] at hl
    exact ha (hap.serial.residue_eq hl a)

/-- A modify that keeps the price and part of the quantity. -/
theorem applyLanes_modifies_partial :
    (((HotOrderBook.new 2 1).run [⟨0, 10, 5, 1, 1, 1, 0⟩]).applyLanes
      [⟨1, 10, 2, 1, 1, 3, 0⟩]).1.view ≠
    (((HotOrderBook.new 2 1).run [⟨0, 10, 5, 1, 1, 1, 0⟩]).run [⟨1, 10, 2, 1, 1, 3, 0⟩]).view := by
  intro hview
  refine absurd ((applyLanes_modifies_iff 2 1 [⟨0, 10, 5, 1, 1, 1, 0⟩] [⟨1, 10, 2, 1, 1, 3, 0⟩]
    (by simp) ⟨by simp [EventType.fromU8], ?_, ?_, ?_⟩).2 (by simp) (by decide) hview) (by simp)
  · intro p e hp
    apply Machine.steps_of_get _ hp
    decide
  · intro p e hp
    apply Machine.steps_of_get _ hp
    decide
  · intro p e hp
    apply Machine.steps_of_get _ hp
    decide

/-- One modify to another price: the lanes keep the order at its old price, too. -/
theorem applyLanes_modify_keeps_old :
    ((HotOrderBook.new 2 1).run [⟨0, 10, 5, 1, 1, 1, 0⟩]).ModifiesLive [⟨1, 11, 5, 1, 1, 3, 0⟩] ∧
    (((HotOrderBook.new 2 1).run [⟨0, 10, 5, 1, 1, 1, 0⟩]).applyLanes
      [⟨1, 11, 5, 1, 1, 3, 0⟩]).1.view.bids = [⟨11, 5, 1⟩, ⟨10, 5, 1⟩] ∧
    (((HotOrderBook.new 2 1).run [⟨0, 10, 5, 1, 1, 1, 0⟩]).run
      [⟨1, 11, 5, 1, 1, 3, 0⟩]).view.bids = [⟨11, 5, 1⟩] := by
  refine ⟨⟨by simp [EventType.fromU8], ?_, ?_, ?_⟩, by decide, by decide⟩
  · intro p e hp
    apply Machine.steps_of_get _ hp
    decide
  · intro p e hp
    apply Machine.steps_of_get _ hp
    decide
  · intro p e hp
    apply Machine.steps_of_get _ hp
    decide

end Flowlab.Core
