import Flowlab.Engine.Synthetic

namespace Flowlab.Engine

open Flowlab.Chaos (swapRemove)
open Flowlab.Core (Event EventType)

def IsAdd (e : Event) : Prop := e.eventType = EventType.orderAdd.toU8

def IsCancel (e : Event) : Prop := e.eventType = EventType.orderCancel.toU8

instance (e : Event) : Decidable (IsAdd e) :=
  inferInstanceAs (Decidable (e.eventType = EventType.orderAdd.toU8))

/-- The prices of the two sides, apart by ten ticks. -/
def InBand (side : UInt8) (price : UInt64) : Prop :=
  side = 0 ∧ 99999950 ≤ price.toNat ∧ price.toNat ≤ 99999995 ∨
    side = 1 ∧ 100000005 ≤ price.toNat ∧ price.toNat ≤ 100000050

theorem InBand.flag {side : UInt8} {price : UInt64} (h : InBand side price) :
    (if side = 0 then 0 else 1) = side := by
  rcases h with ⟨rfl, _⟩ | ⟨rfl, _⟩ <;> rfl

/-- The order was added, at its price and on its side, and not cancelled since. -/
def Rests (past : List Event) (o : LiveOrder) : Prop :=
  ∃ before a after, past = before ++ a :: after ∧ IsAdd a ∧
    (a.orderId = o.oid ∧ a.price = o.priceTicks ∧ a.side = o.side) ∧
    ∀ c ∈ after, IsCancel c → c.orderId ≠ o.oid

/-- The order an event names, as it names it. -/
def named (e : Event) : LiveOrder := ⟨e.orderId, e.price, e.side⟩

def addsIn (past : List Event) : Nat := past.countP (IsAdd ·)

/-- What an event of the source is where some came before. -/
structure WellMade (past : List Event) (e : Event) : Prop where
  instrument : e.instrumentId = 1
  band : InBand e.side e.price
  kind : (IsAdd e ∧ e.orderId = UInt64.ofNat (addsIn past + 1) ∧ 10 ≤ e.qty ∧ e.qty ≤ 500) ∨
    (IsCancel e ∧ e.qty = 0 ∧ Rests past (named e)) ∨
    (Trades e ∧ 1 ≤ e.qty ∧ e.qty ≤ 140 ∧ Rests past (named e))

theorem Rests.keep {past : List Event} {o : LiveOrder} (h : Rests past o) {e : Event}
    (he : IsCancel e → e.orderId ≠ o.oid) : Rests (past ++ [e]) o := by
  obtain ⟨before, a, after, rfl, hadd, hsame, hafter⟩ := h
  refine ⟨before, a, after ++ [e], ?_, hadd, hsame, ?_⟩
  · rw [List.append_assoc, List.cons_append]
  · intro c hc
    rcases List.mem_append.mp hc with hold | hnew
    · exact hafter c hold
    · rw [List.mem_singleton.mp hnew]
      exact he

theorem rests_added (past : List Event) {e : Event} {o : LiveOrder} (hadd : IsAdd e)
    (hsame : e.orderId = o.oid ∧ e.price = o.priceTicks ∧ e.side = o.side) :
    Rests (past ++ [e]) o :=
  ⟨past, e, [], rfl, hadd, hsame, fun _ hc => absurd hc List.not_mem_nil⟩

/-- Up to order `swap_remove` takes out the item at the place. -/
theorem swapRemove_perm {α : Type} {l : List α} {i : Nat} {a : α} (h : l[i]? = some a) :
    l.Perm (a :: swapRemove l i) := by
  obtain ⟨hi, rfl⟩ := List.getElem?_eq_some_iff.mp h
  have hne : l ≠ [] := List.ne_nil_of_length_pos (by omega)
  obtain ⟨last, hlast⟩ := Option.ne_none_iff_exists'.mp (mt List.getLast?_eq_none_iff.mp hne)
  obtain ⟨init, rfl⟩ := List.getLast?_eq_some_iff.mp hlast
  rw [swapRemove, hlast]
  by_cases hend : i < init.length
  · have hset : ((init ++ [last]).set i last).dropLast = init.set i last := by
      rw [List.set_append_left _ _ hend, List.dropLast_concat]
    dsimp only
    rw [hset, List.getElem_append_left hend]
    calc (init ++ [last]).Perm (last :: init) := List.perm_append_singleton last init
      List.Perm _ (last :: init[i] :: init.eraseIdx i) :=
        (List.getElem_cons_eraseIdx_perm hend).symm.cons last
      List.Perm _ (init[i] :: last :: init.eraseIdx i) := List.Perm.swap _ _ _
      List.Perm _ (init[i] :: init.set i last) := (List.set_perm_cons_eraseIdx hend last).symm.cons _
  · have hi' : i = init.length := by
      rw [List.length_append, List.length_singleton] at hi
      omega
    subst hi'
    simp [List.perm_append_singleton]

namespace SyntheticSource

variable {G : Type} {rng : Rng G} {s : SyntheticSource G} {past : List Event}

/-- What the source keeps true of its live orders, of its numbering and of its phase. -/
structure Inv (s : SyntheticSource G) (past : List Event) : Prop where
  mid : s.midTicks = 100000000
  sided : ∀ side, (mix s.phase).2.2 = some side → side = 0 ∨ side = 1
  room : s.liveOrders.length ≤ 8192
  band : ∀ o ∈ s.liveOrders, InBand o.side o.priceTicks
  rests : ∀ o ∈ s.liveOrders, Rests past o
  unique : (s.liveOrders.map LiveOrder.oid).Nodup
  next : s.nextOid = UInt64.ofNat (addsIn past + 1)
  below : ∀ o ∈ s.liveOrders, o.oid.toNat ≤ addsIn past

theorem inv_new (g : G) : (new g).Inv [] where
  mid := rfl
  sided side h := by cases h
  room := Nat.zero_le _
  band o ho := absurd ho List.not_mem_nil
  rests o ho := absurd ho List.not_mem_nil
  unique := .nil
  next := rfl
  below o ho := absurd ho List.not_mem_nil

theorem Inv.setRng (h : s.Inv past) (g : G) : Inv { s with rng := g } past :=
  ⟨h.mid, h.sided, h.room, h.band, h.rests, h.unique, h.next, h.below⟩

theorem pickNextPhase_sided (rng : Rng G) (g : G) :
    ∀ side, (mix (pickNextPhase rng g).1).2.2 = some side → side = 0 ∨ side = 1 := by
  intro side h
  have hdraw := (rng.inRange (rng.genRange g 0 99).2 0 1 (by decide)).2
  have hside : UInt8.ofNat (rng.genRange (rng.genRange g 0 99).2 0 1).1 = 0 ∨
      UInt8.ofNat (rng.genRange (rng.genRange g 0 99).2 0 1).1 = 1 := by
    rcases Nat.le_one_iff_eq_zero_or_eq_one.mp hdraw with hzero | hone
    · rw [hzero]
      exact .inl rfl
    · rw [hone]
      exact .inr rfl
  simp only [pickNextPhase] at h
  split_ifs at h
  · cases h
  · exact Option.some.inj h ▸ hside
  · exact Option.some.inj h ▸ hside
  · exact Option.some.inj h ▸ hside

theorem Inv.schedule (h : s.Inv past) (rng : Rng G) : (s.schedule rng).Inv past := by
  rw [SyntheticSource.schedule]
  split_ifs
  · exact ⟨h.mid, pickNextPhase_sided rng s.rng, h.room, h.band, h.rests, h.unique, h.next, h.below⟩
  · exact ⟨h.mid, h.sided, h.room, h.band, h.rests, h.unique, h.next, h.below⟩

theorem mem_of_maxByKey {α : Type} {key : α → UInt64} {l : List α} {a : α}
    (h : maxByKey key l = some a) : a ∈ l := by
  unfold maxByKey at h
  revert a
  refine List.foldlRecOn (motive := fun best => ∀ {a}, best = some a → a ∈ l) l _ ?_ ?_
  · intro a hnone
    exact absurd hnone (Option.some_ne_none a).symm
  · intro best ih c hc a ha
    cases best with
    | none => exact Option.some.inj ha ▸ hc
    | some b =>
      dsimp only at ha
      split_ifs at ha
      · exact Option.some.inj ha ▸ hc
      · exact ih ha

/-- Where there are live orders one of them is picked. -/
theorem pick_live (rng : Rng G) {live : List LiveOrder} (hlive : live ≠ []) (target : Option UInt8)
    (flash : Bool) (g : G) : ∃ i o, pick rng live target flash g = some i ∧ live[i.1]? = some o := by
  have hpos := List.length_pos_of_ne_nil hlive
  have hany : ∃ i o, rng.genIndex g live.length = some i ∧ live[i.1]? = some o := by
    have hdraw := (rng.inRange g 0 (live.length - 1) (Nat.zero_le _)).2
    have hlt : (rng.genRange g 0 (live.length - 1)).1 < live.length := by omega
    exact ⟨_, _, if_neg hpos.ne', List.getElem?_eq_getElem hlt⟩
  cases target with
  | none => exact hany
  | some side =>
    rw [pick]
    split
    · rename_i i hi
      have hlt : i < live.length := by
        split_ifs at hi
        · obtain ⟨p, hp, rfl⟩ := Option.map_eq_some_iff.mp hi
          exact (List.mem_zipIdx' (List.mem_of_mem_filter (mem_of_maxByKey hp))).1
        · exact (List.findIdx?_eq_some_iff_getElem.mp hi).1
      exact ⟨(i, g), _, rfl, List.getElem?_eq_getElem hlt⟩
    · exact hany

/-- An event for a live order names it. -/
theorem named_event {o : LiveOrder} (h : InBand o.side o.priceTicks) (now : UInt64) (t : EventType)
    (qty : UInt64) : named (event now t o qty) = o := by
  rw [named, event, h.flag]

theorem addsIn_concat (past : List Event) (e : Event) :
    addsIn (past ++ [e]) = addsIn past + if IsAdd e then 1 else 0 := by
  rw [addsIn, List.countP_append, List.countP_singleton, addsIn]
  simp only [decide_eq_true_eq]

/-- What a step owes: an event at its time that fits those before it, and the invariant. -/
structure Makes (past : List Event) (now : UInt64) (r : SyntheticSource G × Event) : Prop where
  time : r.2.ts = now
  made : WellMade past r.2
  inv : r.1.Inv (past ++ [r.2])

/-- A price on its side of the fixed mid. -/
theorem band_price {side : UInt8} (hside : side = 0 ∨ side = 1) {offset : Nat} (hlow : 5 ≤ offset)
    (hhigh : offset ≤ 50) : InBand side (if side = 0 then UInt64.ofInt (max (100000000 - offset) 1)
      else UInt64.ofInt (100000000 + offset)) := by
  have hnat {n : Nat} (hn : n < 2 ^ 64) : (UInt64.ofInt n).toNat = n := by
    rw [UInt64.ofInt]
    simp only [UInt64.toNat_ofNat']
    omega
  rcases hside with rfl | rfl
  · have hprice : max ((100000000 : Int) - offset) 1 = (100000000 - offset : Nat) := by omega
    refine .inl ⟨rfl, ?_⟩
    rw [if_pos rfl, hprice, hnat (by omega)]
    omega
  · have hprice : (100000000 : Int) + offset = (100000000 + offset : Nat) := by omega
    refine .inr ⟨rfl, ?_⟩
    rw [if_neg (by decide), hprice, hnat (by omega)]
    omega

/-- What an add draws. -/
theorem add_cases (s : SyntheticSource G) (rng : Rng G) {forced : Option UInt8}
    (hforced : ∀ side, forced = some side → side = 0 ∨ side = 1) (now : UInt64) :
    ∃ (side : UInt8) (offset qty : Nat) (g : G), (side = 0 ∨ side = 1) ∧ (5 ≤ offset ∧ offset ≤ 50) ∧
      (10 ≤ qty ∧ qty ≤ 500) ∧
      let o : LiveOrder := ⟨s.nextOid, if side = 0 then UInt64.ofInt (max (s.midTicks - offset) 1)
        else UInt64.ofInt (s.midTicks + offset), side⟩
      let live := s.liveOrders ++ [o]
      s.add rng forced now =
        ({ s with
            rng := g
            nextOid := s.nextOid + 1
            liveOrders := if live.length > 8192 then swapRemove live 0 else live },
          event now .orderAdd o (UInt64.ofNat qty)) := by
  cases forced with
  | none =>
    obtain ⟨hlow, hhigh⟩ := rng.inRange (rng.genBool s.rng).2 5 50 (by decide)
    refine ⟨if (rng.genBool s.rng).1 then 0 else 1, _, _, _, ?_, ⟨hlow, hhigh⟩,
      rng.inRange (rng.genRange (rng.genBool s.rng).2 5 50).2 10 500 (by decide), rfl⟩
    split_ifs
    · exact .inl rfl
    · exact .inr rfl
  | some side =>
    obtain ⟨hlow, hhigh⟩ := rng.inRange s.rng 5 7 (by decide)
    exact ⟨side, _, _, _, hforced side rfl, ⟨hlow, hhigh.trans (by decide)⟩,
      rng.inRange (rng.genRange s.rng 5 7).2 10 500 (by decide), rfl⟩

/-- The soft cap of the live set. -/
theorem exists_capped {live : List LiveOrder} (hlen : live.length ≤ 8193)
    (hunique : (live.map LiveOrder.oid).Nodup) :
    ∃ kept, (if live.length > 8192 then swapRemove live 0 else live) = kept ∧
      kept.length ≤ 8192 ∧ (∀ a ∈ kept, a ∈ live) ∧ (kept.map LiveOrder.oid).Nodup := by
  refine ⟨_, rfl, ?_⟩
  split_ifs with hfull
  · have hfirst : live[0]? = some live[0] := List.getElem?_eq_getElem (by omega)
    have hperm := swapRemove_perm hfirst
    have hless := hperm.length_eq
    rw [(hperm.map LiveOrder.oid).nodup_iff, List.map_cons, List.nodup_cons] at hunique
    rw [List.length_cons] at hless
    exact ⟨by omega, fun a ha => hperm.mem_iff.mpr (List.mem_cons_of_mem _ ha), hunique.2⟩
  · exact ⟨by omega, fun a ha => ha, hunique⟩

/-- The new order's number is none of the live ones'. -/
theorem Inv.fresh (h : s.Inv past) (hshort : past.length < 2 ^ 64 - 1) :
    s.nextOid.toNat = addsIn past + 1 ∧ ∀ o ∈ s.liveOrders, o.oid ≠ s.nextOid := by
  have hcount : addsIn past ≤ past.length := List.countP_le_length
  have hnew : s.nextOid.toNat = addsIn past + 1 := by
    rw [h.next, UInt64.toNat_ofNat']
    omega
  refine ⟨hnew, ?_⟩
  intro o ho heq
  have hle := h.below o ho
  rw [heq] at hle
  omega

theorem addMakes (h : s.Inv past) (rng : Rng G) {forced : Option UInt8}
    (hforced : ∀ side, forced = some side → side = 0 ∨ side = 1)
    (hshort : past.length < 2 ^ 64 - 1) (now : UInt64) : Makes past now (s.add rng forced now) := by
  obtain ⟨side, offset, qty, g, hside, ⟨hlow, hhigh⟩, ⟨hmin, hmax⟩, hadd⟩ :=
    add_cases s rng hforced now
  rw [h.mid] at hadd
  have hband := band_price hside hlow hhigh
  generalize (if side = 0 then UInt64.ofInt (max (100000000 - offset) 1)
    else UInt64.ofInt (100000000 + offset)) = price at hadd hband
  obtain ⟨hnew, hfresh⟩ := h.fresh hshort
  have hqty : (UInt64.ofNat qty).toNat = qty := by
    rw [UInt64.toNat_ofNat']
    omega
  let o : LiveOrder := ⟨s.nextOid, price, side⟩
  let e := event now .orderAdd o (UInt64.ofNat qty)
  have hIsAdd : IsAdd e := rfl
  have hadds : addsIn (past ++ [e]) = addsIn past + 1 := by
    rw [addsIn_concat, if_pos hIsAdd]
  have hnamed : e.orderId = o.oid ∧ e.price = o.priceTicks ∧ e.side = o.side :=
    ⟨rfl, rfl, hband.flag⟩
  -- the new order among the live ones, before one is dropped to make room
  have hall : ∀ a ∈ s.liveOrders ++ [o], InBand a.side a.priceTicks ∧ Rests (past ++ [e]) a ∧
      a.oid.toNat ≤ addsIn (past ++ [e]) := by
    intro a ha
    rw [hadds]
    rcases List.mem_append.mp ha with hold | hlast
    · refine ⟨h.band a hold, (h.rests a hold).keep ?_, (h.below a hold).trans (Nat.le_succ _)⟩
      intro hcancel
      exact absurd hcancel (by simp [e, IsCancel, event, EventType.toU8])
    · rw [List.mem_singleton.mp hlast]
      exact ⟨hband, rests_added past hIsAdd hnamed, hnew.le⟩
  have hunique : ((s.liveOrders ++ [o]).map LiveOrder.oid).Nodup := by
    rw [List.map_append, List.map_singleton]
    refine List.nodup_append.mpr ⟨h.unique, List.nodup_singleton _, ?_⟩
    intro i hi j hj
    obtain ⟨a, ha, rfl⟩ := List.mem_map.mp hi
    rw [List.mem_singleton.mp hj]
    exact hfresh a ha
  have hlen : (s.liveOrders ++ [o]).length ≤ 8193 := by
    rw [List.length_append, List.length_singleton]
    exact Nat.succ_le_succ h.room
  obtain ⟨live, hlive, hsmall, hsub, hdistinct⟩ := exists_capped hlen hunique
  have hresult : s.add rng forced now =
      ({ s with rng := g, nextOid := s.nextOid + 1, liveOrders := live }, e) := by
    rw [hadd, ← hlive, h.mid]
  rw [hresult]
  refine ⟨rfl, ⟨rfl, ?_, .inl ⟨hIsAdd, h.next, ?_, ?_⟩⟩, ?_⟩
  · change InBand (if side = 0 then 0 else 1) price
    rw [hband.flag]
    exact hband
  · rw [UInt64.le_iff_toNat_le]
    exact hmin.trans hqty.ge
  · rw [UInt64.le_iff_toNat_le]
    exact hqty.le.trans hmax
  · refine ⟨h.mid, h.sided, hsmall, fun a ha => (hall a (hsub a ha)).1,
      fun a ha => (hall a (hsub a ha)).2.1, hdistinct, ?_, fun a ha => (hall a (hsub a ha)).2.2⟩
    dsimp only
    rw [h.next, hadds, UInt64.ofNat_add (addsIn past + 1)]
    rfl

theorem cancelMakes (h : s.Inv past) (rng : Rng G) (hlive : s.liveOrders ≠ [])
    (forced : Option UInt8) (now : UInt64) :
    ∃ r, s.cancel rng forced now = some r ∧ Makes past now r := by
  obtain ⟨i, o, hi, ho⟩ := pick_live rng hlive forced (flashMode s.phase) s.rng
  have hmem : o ∈ s.liveOrders := List.mem_of_getElem? ho
  have hband := h.band o hmem
  have hperm := swapRemove_perm ho
  have hsub : ∀ a ∈ swapRemove s.liveOrders i.1, a ∈ s.liveOrders :=
    fun a ha => hperm.mem_iff.mpr (List.mem_cons_of_mem o ha)
  have hunique := h.unique
  rw [(hperm.map LiveOrder.oid).nodup_iff, List.map_cons, List.nodup_cons] at hunique
  obtain ⟨hgone, hrest⟩ := hunique
  have hadds : addsIn (past ++ [event now .orderCancel o 0]) = addsIn past := by
    rw [addsIn_concat, if_neg]
    · rfl
    · simp [IsAdd, event, EventType.toU8]
  refine ⟨({ s with rng := i.2, liveOrders := swapRemove s.liveOrders i.1 },
    event now .orderCancel o 0), ?_, rfl, ⟨rfl, ?_, ?_⟩, ?_⟩
  · simp only [cancel, hi, ho, Option.bind_eq_bind, Option.bind_some, Option.pure_def]
  · change InBand (if o.side = 0 then 0 else 1) o.priceTicks
    rw [hband.flag]
    exact hband
  · refine .inr (.inl ⟨rfl, rfl, ?_⟩)
    rw [named_event hband]
    exact h.rests o hmem
  · refine ⟨h.mid, h.sided, ?_, fun a ha => h.band a (hsub a ha), ?_, hrest, ?_, ?_⟩
    · have hlen := hperm.length_eq
      have hroom := h.room
      rw [List.length_cons] at hlen
      dsimp only
      omega
    · intro a ha
      refine (h.rests a (hsub a ha)).keep ?_
      rintro _ hsame
      exact hgone (List.mem_map.mpr ⟨a, ha, hsame.symm⟩)
    · rw [hadds]
      exact h.next
    · rw [hadds]
      exact fun a ha => h.below a (hsub a ha)

theorem tradeMakes (h : s.Inv past) (rng : Rng G) (hlive : s.liveOrders ≠ [])
    (forced : Option UInt8) (now : UInt64) :
    ∃ r, s.trade rng forced now = some r ∧ Makes past now r := by
  obtain ⟨i, o, hi, ho⟩ := pick_live rng hlive (forced.map (1 - ·)) (flashMode s.phase) s.rng
  have hmem : o ∈ s.liveOrders := List.mem_of_getElem? ho
  have hband := h.band o hmem
  have hfill : ∃ n g, (if flashMode s.phase then rng.genRange i.2 35 140
      else rng.genRange i.2 1 50) = (n, g) ∧ 1 ≤ n ∧ n ≤ 140 := by
    by_cases hflash : flashMode s.phase = true
    · obtain ⟨hlow, hhigh⟩ := rng.inRange i.2 35 140 (by decide)
      exact ⟨_, _, if_pos hflash, (by decide : 1 ≤ 35).trans hlow, hhigh⟩
    · obtain ⟨hlow, hhigh⟩ := rng.inRange i.2 1 50 (by decide)
      exact ⟨_, _, if_neg hflash, hlow, hhigh.trans (by decide)⟩
  obtain ⟨n, g, hdraw, hlow, hhigh⟩ := hfill
  have hn : (UInt64.ofNat n).toNat = n := by
    rw [UInt64.toNat_ofNat']
    omega
  have hadds : addsIn (past ++ [event now .trade o (UInt64.ofNat n)]) = addsIn past := by
    rw [addsIn_concat, if_neg]
    · rfl
    · simp [IsAdd, event, EventType.toU8]
  refine ⟨({ s with rng := g }, event now .trade o (UInt64.ofNat n)), ?_, rfl, ⟨rfl, ?_, ?_⟩, ?_⟩
  · simp only [trade, hi, ho, hdraw, Option.bind_eq_bind, Option.bind_some, Option.pure_def]
  · change InBand (if o.side = 0 then 0 else 1) o.priceTicks
    rw [hband.flag]
    exact hband
  · refine .inr (.inr ⟨rfl, ?_, ?_, ?_⟩)
    · rw [UInt64.le_iff_toNat_le]
      exact hlow.trans hn.ge
    · rw [UInt64.le_iff_toNat_le]
      exact hn.le.trans hhigh
    · rw [named_event hband]
      exact h.rests o hmem
  · refine ⟨h.mid, h.sided, h.room, h.band, ?_, h.unique, ?_, ?_⟩
    · intro a ha
      refine (h.rests a ha).keep ?_
      intro hcancel
      exact absurd hcancel (by simp [IsCancel, event, EventType.toU8])
    · rw [hadds]
      exact h.next
    · rw [hadds]
      exact h.below

/-- Every call makes an event. -/
theorem next_makes (h : s.Inv past) (rng : Rng G) (hshort : past.length < 2 ^ 64 - 1)
    (now : UInt64) : ∃ r, s.next rng now = some r ∧ Makes past now r := by
  have hdrawn := (h.schedule rng).setRng (rng.genRange (s.schedule rng).rng 0 99).2
  rw [next]
  dsimp only
  split_ifs with hadd hcancel
  · exact ⟨_, rfl, addMakes hdrawn rng (h.schedule rng).sided hshort now⟩
  · exact cancelMakes hdrawn rng (fun hnone => hadd (.inr hnone)) _ now
  · exact tradeMakes hdrawn rng (fun hnone => hadd (.inr hnone)) _ now

theorem run_makes (h : s.Inv past) (rng : Rng G) {clock : List UInt64}
    (hshort : past.length + clock.length < 2 ^ 64) :
    ∃ t evs, s.run rng clock = some (t, evs) ∧ t.Inv (past ++ evs) ∧
      evs.map Event.ts = clock ∧ ∀ i e, evs[i]? = some e → WellMade (past ++ evs.take i) e := by
  induction clock generalizing s past with
  | nil => exact ⟨s, [], rfl, by rwa [List.append_nil], rfl, fun i e he => by cases he⟩
  | cons now clock ih =>
    rw [List.length_cons] at hshort
    obtain ⟨⟨t, e⟩, hnext, htime, hmade, hinv⟩ := next_makes h rng (by omega) now
    have hlen : (past ++ [e]).length + clock.length < 2 ^ 64 := by
      rw [List.length_append, List.length_singleton]
      omega
    obtain ⟨u, evs, hrun, hend, hclock, hall⟩ := ih hinv hlen
    rw [List.append_assoc, List.singleton_append] at hend
    refine ⟨u, e :: evs, ?_, hend, ?_, ?_⟩
    · simp only [run, hnext, hrun, Option.bind_eq_bind, Option.bind_some, Option.pure_def]
    · rw [List.map_cons, hclock, htime]
    · intro i e' he'
      cases i with
      | zero =>
        cases he'
        rw [List.take_zero, List.append_nil]
        exact hmade
      | succ i =>
        have hlater := hall i e' he'
        rwa [List.append_assoc] at hlater

/-- **The synthetic source makes a coherent stream.** Whatever its generator draws, and whatever the
wall clock shows, in fewer than 2^64 calls it never panics and makes one event per call, at the time
of the call: an add with the next order number and a size from 10 to 500, or a cancel or a trade for
an order that was added before at this price and on this side and not cancelled since. Bids stay
from 5 to 50 ticks below the fixed mid and asks as far above it, and no more than 8192 orders are
live. -/
theorem synthetic_well_made (rng : Rng G) (g : G) {clock : List UInt64}
    (hshort : clock.length < 2 ^ 64) :
    ∃ s evs, (new g).run rng clock = some (s, evs) ∧ evs.map Event.ts = clock ∧
      s.liveOrders.length ≤ 8192 ∧ ∀ i e, evs[i]? = some e → WellMade (evs.take i) e := by
  obtain ⟨s, evs, hrun, hinv, hclock, hall⟩ := run_makes (inv_new g) rng (by simpa using hshort)
  exact ⟨s, evs, hrun, hclock, hinv.room, hall⟩

/-- A generator that counts up and draws the count where it can. -/
def countingRng : Rng Nat where
  genRange n lo hi := (lo + n % (hi + 1 - lo), n + 1)
  genBool n := (decide (n / 4 % 2 = 0), n + 1)
  inRange n lo hi h := by
    have hlt := Nat.mod_lt n (by omega : 0 < hi + 1 - lo)
    dsimp only
    omega

/-- An add, its cancel, another add and a trade of it. -/
theorem synthetic_well_made_counting : ∃ s evs,
    (new 76).run countingRng [7, 8, 9, 10] = some (s, evs) ∧ evs.map Event.ts = [7, 8, 9, 10] ∧
    evs.map Event.eventType =
      [EventType.orderAdd.toU8, EventType.orderCancel.toU8, EventType.orderAdd.toU8,
        EventType.trade.toU8] ∧
    ∀ i e, evs[i]? = some e → WellMade (evs.take i) e := by
  have htypes : ((new 76).run countingRng [7, 8, 9, 10]).map (fun r => r.2.map Event.eventType) =
      some [EventType.orderAdd.toU8, EventType.orderCancel.toU8, EventType.orderAdd.toU8,
        EventType.trade.toU8] := by
    decide
  have hshort : ([7, 8, 9, 10] : List UInt64).length < 2 ^ 64 := by decide
  obtain ⟨s, evs, hrun, hclock, _, hall⟩ := synthetic_well_made countingRng 76 hshort
  rw [hrun] at htypes
  exact ⟨s, evs, hrun, hclock, Option.some.inj htypes, hall⟩

end SyntheticSource

end Flowlab.Engine
