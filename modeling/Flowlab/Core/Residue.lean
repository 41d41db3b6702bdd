import Flowlab.Core.Touch
import Flowlab.Core.Cover

namespace Flowlab.Core

open Std Framework

/-- What a place holds beyond its live orders: quantity and number of the orders that were
overwritten while they rested there. -/
abbrev Residue := Bool × UInt64 → Nat × Nat

/-- One more overwritten order. -/
def Residue.bump (R : Residue) (a : Bool × UInt64) (qty : Nat) : Residue :=
  Function.update R a ((R a).1 + qty, (R a).2 + 1)

theorem Residue.bump_apply (R : Residue) (p a : Bool × UInt64) (qty : Nat) :
    R.bump p qty a = ((R a).1 + (if p = a then qty else 0), (R a).2 + (if p = a then 1 else 0)) := by
  by_cases ha : p = a
  · subst ha
    rw [bump, Function.update_self, if_pos rfl, if_pos rfl]
  · rw [bump, Function.update_of_ne (Ne.symm ha), if_neg ha, if_neg ha]
    rfl

/-- Every level is the sum of the live orders at its place and of the residue there, after `n`
adds of 32-bit quantities. -/
structure Book.Owes (R : Residue) (n : Nat) (k : Book) : Prop where
  kept : k.KeepsAt fun a o q c => Carries o (q + (R a).1) (c + (R a).2)
  residue : ∀ a, (R a).1 ≤ (R a).2 * (2 ^ 32 - 1)
  count : ∀ a, restingCount k.orders a + (R a).2 ≤ n

/-- The order an add event brings. -/
def Event.rests (e : Event) : OrderMeta := ⟨e.price, e.qty, e.side⟩

/-- The live orders with one more. -/
theorem resting_insert_new {t : ExtTreeMap UInt64 OrderMeta} {i : UInt64} (h : t[i]? = none)
    (m : OrderMeta) (a : Bool × UInt64) :
    restingQty (t.insert i m) a = restingQty t a + (if m.place = a then m.qty.toNat else 0) ∧
      restingCount (t.insert i m) a = restingCount t a + (if m.place = a then 1 else 0) := by
  simp only [restingQty, restingCount]
  rw [FiniteMap.total_insert_new _ _ _ _ h, FiniteMap.total_insert_new _ _ _ _ h]
  exact ⟨Nat.add_comm _ _, Nat.add_comm _ _⟩

/-- The live orders with one of them overwritten. -/
theorem resting_insert_live {t : ExtTreeMap UInt64 OrderMeta} {i : UInt64} {m₀ : OrderMeta}
    (h : t[i]? = some m₀) (m : OrderMeta) (a : Bool × UInt64) :
    restingQty (t.insert i m) a + (if m₀.place = a then m₀.qty.toNat else 0) =
        restingQty t a + (if m.place = a then m.qty.toNat else 0) ∧
      restingCount (t.insert i m) a + (if m₀.place = a then 1 else 0) =
        restingCount t a + (if m.place = a then 1 else 0) := by
  have hq := FiniteMap.total_update
    (fun _ (m : OrderMeta) => if m.place = a then m.qty.toNat else 0) t i m₀ m h
  have hn := FiniteMap.total_update (fun _ (m : OrderMeta) => if m.place = a then 1 else 0) t i m₀ m h
  simp only [restingQty, restingCount]
  omega

/-- A level is determined by what it carries. -/
theorem carries_unique {o o' : Option Level} {q n : Nat} (h : Carries o q n) (h' : Carries o' q n)
    (hp : ∀ l l', o = some l → o' = some l' → l.price = l'.price) : o = o' := by
  cases o with
  | none =>
    cases o' with
    | none => rfl
    | some l' =>
      have hn : n = 0 := h
      obtain ⟨_, _, h3⟩ := h'
      omega
  | some l =>
    obtain ⟨h1, h2, h3⟩ := h
    cases o' with
    | none =>
      have hn : n = 0 := h'
      omega
    | some l' =>
      obtain ⟨h1', h2', _⟩ := h'
      refine congrArg some (Level.ext (hp l l' rfl rfl) ?_ ?_)
      · exact UInt64.toNat_inj.mp (h1.trans h1'.symm)
      · exact UInt32.toNat_inj.mp (h2.trans h2'.symm)

/-- What a level carries is determined by it. -/
theorem carries_inj {o : Option Level} {q n q' n' : Nat} (h : Carries o q n) (h' : Carries o q' n')
    (hq : n = 0 → q = 0) (hq' : n' = 0 → q' = 0) : q = q' ∧ n = n' := by
  cases o with
  | none =>
    have hn : n = 0 := h
    have hn' : n' = 0 := h'
    exact ⟨(hq hn).trans (hq' hn').symm, hn.trans hn'.symm⟩
  | some l =>
    obtain ⟨h1, h2, _⟩ := h
    obtain ⟨h1', h2', _⟩ := h'
    exact ⟨h1.symm.trans h1', h2.symm.trans h2'⟩

namespace Book

theorem Owes.mono {R : Residue} {n n' : Nat} {k : Book} (h : k.Owes R n) (hn : n ≤ n') :
    k.Owes R n' :=
  ⟨h.kept, h.residue, fun a => (h.count a).trans hn⟩

theorem Owes.qty_le {R : Residue} {n : Nat} {k : Book} (h : k.Owes R n) (a : Bool × UInt64) :
    restingQty k.orders a + (R a).1 ≤ (restingCount k.orders a + (R a).2) * (2 ^ 32 - 1) := by
  have h1 := restingQty_le h.kept.small a
  have h2 := h.residue a
  rw [Nat.add_mul]
  omega

theorem Owes.qty_zero {R : Residue} {n : Nat} {k : Book} (h : k.Owes R n) (a : Bool × UInt64)
    (hz : restingCount k.orders a + (R a).2 = 0) : restingQty k.orders a + (R a).1 = 0 := by
  have hle := h.qty_le a
  rw [hz, Nat.zero_mul] at hle
  exact Nat.le_zero.mp hle

/-- Same orders and same residue, same ladders. -/
theorem Owes.unique {R : Residue} {n n' : Nat} {k k' : Book} (h : k.Owes R n) (h' : k'.Owes R n')
    (ho : k.orders = k'.orders) : k = k' := by
  have hd : k.depth = k'.depth := by
    funext a
    have hc := h.kept.keeps a
    have hc' := h'.kept.keeps a
    rw [← ho] at hc'
    refine carries_unique hc hc' ?_
    intro l l' hl hl'
    rw [depth_files hl, depth_files hl']
  obtain ⟨hb, ha⟩ := depth_inj h.kept.sorted h'.kept.sorted hd
  exact Book.ext hb ha ho

/-- Same ladders and same orders, same residue. -/
theorem Owes.residue_eq {R R' : Residue} {n n' : Nat} {k : Book} (h : k.Owes R n)
    (h' : k.Owes R' n') (a : Bool × UInt64) : R a = R' a := by
  obtain ⟨hq, hn⟩ := carries_inj (h.kept.keeps a) (h'.kept.keeps a) (h.qty_zero a) (h'.qty_zero a)
  exact Prod.ext (by omega) (by omega)

theorem owes_empty : Book.empty.Owes (fun _ => (0, 0)) 0 where
  kept :=
    { sorted := balanced_empty.sorted
      keeps := balanced_empty.carries
      small := balanced_empty.small }
  residue _ := Nat.zero_le _
  count a := by
    have hz : restingCount Book.empty.orders a = 0 := FiniteMap.total_empty _
    rw [hz]
    exact Nat.le_refl 0

theorem carries_residue (R : Residue) {a : Bool × UInt64} {o : Option Level} {q n : Nat}
    (h : Carries o (q + (R a).1) (n + (R a).2)) (hn : 1 ≤ n) (qty : UInt64) (release : Bool)
    (hq : qty.toNat ≤ q) :
    Carries (deducted qty release o) (q - qty.toNat + (R a).1) (n - release.toNat + (R a).2) := by
  have hd := carries_deducted h (by omega) qty release
  have hrel : release.toNat ≤ 1 := Bool.toNat_le release
  rwa [show q + (R a).1 - qty.toNat = q - qty.toNat + (R a).1 by omega,
    show n + (R a).2 - release.toNat = n - release.toNat + (R a).2 by omega] at hd

theorem restingCount_settle_le {k : Book} {i : UInt64} {f : OrderMeta → Option OrderMeta × UInt64 × Bool}
    (hf : AgreeOff.KeepsPlace f) (a : Bool × UInt64) :
    restingCount (k.settle i f).orders a ≤ restingCount k.orders a := by
  simp only [settle]
  cases hm : k.orders[i]? with
  | none => exact Nat.le_refl _
  | some m =>
    dsimp only [deductOn]
    rw [alterSide_orders]
    have herase := (resting_erase hm a).2
    cases hr : (f m).1 with
    | none =>
      change restingCount (k.orders.erase i) a ≤ _
      omega
    | some m' =>
      have hplace := hf m m' hr
      have hup := FiniteMap.total_update (fun _ (m : OrderMeta) => if m.place = a then 1 else 0)
        k.orders i m m' hm
      rw [hplace] at hup
      change restingCount (k.orders.insert i m') a ≤ _
      simp only [restingCount] at hup ⊢
      omega

theorem Owes.cancelOrder {R : Residue} {n : Nat} {k : Book} (h : k.Owes R n) {e : Event}
    (hid : e.orderId ≠ 0) : (k.cancelOrder e).1.Owes R n := by
  refine ⟨keepsAt_cancelOrder (fun ho hn => carries_residue R ho hn) h.kept hid, h.residue, ?_⟩
  intro a
  have hle := restingCount_settle_le (k := k) (i := e.orderId)
    (AgreeOff.keepsPlace_cancelled e.qty) a
  have hold := h.count a
  rw [cancelOrder_settle hid]
  omega

theorem Owes.trade {R : Residue} {n : Nat} {k : Book} (h : k.Owes R n) {e : Event}
    (hid : e.orderId ≠ 0) : (k.trade e).1.Owes R n := by
  refine ⟨keepsAt_trade (fun ho hn => carries_residue R ho hn) h.kept hid, h.residue, ?_⟩
  intro a
  have hle := restingCount_settle_le (k := k) (i := e.orderId) (AgreeOff.keepsPlace_filled e.qty) a
  have hold := h.count a
  rw [trade_settle hid]
  omega

theorem orders_place (k : Book) (e : Event) :
    (k.place e).orders = k.orders.insert e.orderId e.rests := by
  rw [Book.place, alterSide_orders]
  rfl

/-- An order placed on top of a book, with whatever residue accounts for the order it overwrites. -/
theorem Owes.place {R R' : Residue} {n : Nat} {k : Book} (h : k.Owes R n) {e : Event}
    (hqty : e.qty.toNat < 2 ^ 32) (hn : n + 1 < 2 ^ 31)
    (hres : ∀ a, (R' a).1 ≤ (R' a).2 * (2 ^ 32 - 1))
    (hq : ∀ a, restingQty (k.place e).orders a + (R' a).1 = restingQty k.orders a + (R a).1 +
      (if e.rests.place = a then e.qty.toNat else 0))
    (hc : ∀ a, restingCount (k.place e).orders a + (R' a).2 = restingCount k.orders a + (R a).2 +
      (if e.rests.place = a then 1 else 0)) : (k.place e).Owes R' (n + 1) := by
  have hf := added_files e.price e.qty
  have hs : ({ k with orders := k.orders.insert e.orderId e.rests } : Book).Sorted :=
    ⟨h.kept.sorted.bids, h.kept.sorted.asks⟩
  refine ⟨⟨sorted_alterSide hs _ hf, ?_, ?_⟩, hres, ?_⟩
  · intro a
    have hold := h.kept.keeps a
    have hbound := h.qty_le a
    have hcount := h.count a
    have hd : (k.place e).depth a = alterAt k.depth e.rests.place (added e.price e.qty) a :=
      congrFun (depth_alterSide hs (decide (e.side = 0)) hf) a
    rw [hq a, hc a, hd]
    by_cases ha : e.rests.place = a
    · rw [if_pos ha, if_pos ha, ha, alterAt, Function.update_self]
      refine carries_added hold (h.qty_zero a) _ _ ?_ (by omega)
      have hmul : (restingCount k.orders a + (R a).2) * (2 ^ 32 - 1) ≤ n * (2 ^ 32 - 1) :=
        Nat.mul_le_mul_right _ hcount
      omega
    · rw [if_neg ha, if_neg ha, alterAt, Function.update_of_ne (Ne.symm ha)]
      exact hold
  · intro i m hm
    rw [orders_place, FiniteMap.get_insert] at hm
    split_ifs at hm
    · rw [← Option.some.inj hm]
      exact hqty
    · exact h.kept.small i m hm
  · intro a
    have hcount := h.count a
    rw [hc a]
    split_ifs <;> omega

theorem Owes.place_new {R : Residue} {n : Nat} {k : Book} (h : k.Owes R n) {e : Event}
    (hqty : e.qty.toNat < 2 ^ 32) (hn : n + 1 < 2 ^ 31) (hnew : k.orders[e.orderId]? = none) :
    (k.place e).Owes R (n + 1) := by
  have hins (a : Bool × UInt64) := resting_insert_new hnew e.rests a
  simp only [← orders_place] at hins
  refine h.place hqty hn h.residue ?_ ?_
  · intro a
    rw [(hins a).1]
    exact Nat.add_right_comm _ _ _
  · intro a
    rw [(hins a).2]
    exact Nat.add_right_comm _ _ _

/-- An overwritten order stays on its level as residue. -/
theorem Owes.place_live {R : Residue} {n : Nat} {k : Book} (h : k.Owes R n) {e : Event}
    (hqty : e.qty.toNat < 2 ^ 32) (hn : n + 1 < 2 ^ 31) {m : OrderMeta}
    (hm : k.orders[e.orderId]? = some m) :
    (k.place e).Owes (R.bump m.place m.qty.toNat) (n + 1) := by
  have hsmall := h.kept.small e.orderId m hm
  have hins (a : Bool × UInt64) := resting_insert_live hm e.rests a
  simp only [← orders_place] at hins
  refine h.place hqty hn ?_ ?_ ?_
  · intro a
    have hold := h.residue a
    rw [Residue.bump_apply]
    dsimp only
    split_ifs <;> omega
  · intro a
    have hq := (hins a).1
    have hr : e.rests.qty = e.qty := rfl
    rw [hr] at hq
    rw [Residue.bump_apply]
    dsimp only
    omega
  · intro a
    have hc := (hins a).2
    rw [Residue.bump_apply]
    dsimp only
    omega

theorem exists_owes_addOrder {M : Nat} {R : Residue} {n : Nat} {k : Book} (h : k.Owes R n) {e : Event}
    (hid : e.orderId ≠ 0) (hqty : e.qty.toNat < 2 ^ 32) (hn : n + 1 < 2 ^ 31) :
    ∃ R', (k.addOrder M e).1.Owes R' (n + 1) := by
  cases hflag : (k.addOrder M e).2 with
  | false =>
    rw [addOrder_refused hid hflag]
    exact ⟨R, h.mono (Nat.le_succ n)⟩
  | true =>
    rw [addOrder_place hid hflag]
    cases hm : k.orders[e.orderId]? with
    | none => exact ⟨R, h.place_new hqty hn hm⟩
    | some m => exact ⟨_, h.place_live hqty hn hm⟩

theorem exists_owes_apply {M : Nat} {R : Residue} {n : Nat} {k : Book} (h : k.Owes R n) {e : Event}
    (hid : e.orderId ≠ 0) (hqty : e.qty.toNat < 2 ^ 32) (hn : n + 1 < 2 ^ 31) :
    ∃ R', (k.apply M e).1.Owes R' (n + 1) := by
  simp only [Book.apply]
  cases EventType.fromU8 e.eventType with
  | none => exact ⟨R, h.mono (Nat.le_succ n)⟩
  | some t =>
    cases t with
    | orderAdd => exact exists_owes_addOrder h hid hqty hn
    | orderCancel => exact ⟨R, (h.cancelOrder hid).mono (Nat.le_succ n)⟩
    | orderModify => exact exists_owes_addOrder (h.cancelOrder hid) hid hqty hn
    | trade => exact ⟨R, (h.trade hid).mono (Nat.le_succ n)⟩
    | bookSnapshot => exact ⟨R, h.mono (Nat.le_succ n)⟩

/-- After any order-id stream of fewer than 2^31 events the ladders are the live orders and some
residue. -/
theorem exists_owes_run (M : Nat) (es : List Event)
    (hev : ∀ e ∈ es, e.orderId ≠ 0 ∧ e.qty.toNat < 2 ^ 32) (hlen : es.length < 2 ^ 31) :
    ∃ R, (Book.empty.run M es).Owes R es.length := by
  induction es using List.reverseRecOn with
  | nil => exact ⟨_, owes_empty⟩
  | append_singleton es e ih =>
    rw [List.length_append, List.length_singleton] at hlen ⊢
    obtain ⟨R, hR⟩ := ih (fun d hd => hev d (List.mem_append_left _ hd)) (by omega)
    obtain ⟨hid, hqty⟩ := hev e (by simp)
    rw [Book.run, List.foldl_append]
    exact exists_owes_apply hR hid hqty hlen

end Book

end Flowlab.Core
