import Flowlab.Engine.Frames

namespace Flowlab.Engine

open Flowlab.Core (Event HotOrderBook Level)

/-- `x as i64`. -/
theorem toInt_toInt64 (x : UInt64) :
    x.toInt64.toInt = if x.toNat < 2 ^ 63 then (x.toNat : Int) else x.toNat - 2 ^ 64 := by
  change x.toBitVec.toInt = _
  rw [BitVec.toInt_eq_toNat_cond]
  have h : x.toBitVec.toNat = x.toNat := rfl
  rw [h]
  split_ifs <;> omega

/-- A touch that reads as positive is below 2^63. -/
theorem toInt_of_pos {x : UInt64} (h : x.toInt64 > 0) :
    x.toInt64.toInt = x.toNat ∧ 0 < x.toNat ∧ x.toNat < 2 ^ 63 := by
  have hpos := Int64.lt_iff_toInt_lt.mp h
  rw [toInt_toInt64] at hpos ⊢
  have hlt := x.toNat_lt
  have hzero : (0 : Int64).toInt = 0 := rfl
  rw [hzero] at hpos
  split_ifs at hpos ⊢ with hsmall
  · exact ⟨rfl, by omega, hsmall⟩
  · omega

/-- What a tick that is sent says of a touch: the mid and the spread are exact, and the microprice lies
between the two prices. -/
structure TickOf (bid ask : UInt64) (t : TickFrame) : Prop where
  open_ : 0 < bid.toNat ∧ bid.toNat < ask.toNat
  mid : t.midTicks.toInt = ((bid.toNat + ask.toNat) / 2 : Nat)
  spread : t.spreadTicks.toInt = (ask.toNat - bid.toNat : Nat)
  micro : (bid.toNat : Int) ≤ t.micropriceTicks.toInt ∧ t.micropriceTicks.toInt ≤ ask.toNat

/-- A mid that is positive did not wrap. -/
theorem mid_exact {bid ask : UInt64} (hbid : bid.toInt64 > 0) (hask : ask.toInt64 > 0)
    (hmid : (bid.toInt64 + ask.toInt64) / 2 > 0) :
    ((bid.toInt64 + ask.toInt64) / 2).toInt = ((bid.toNat + ask.toNat) / 2 : Nat) ∧
      bid.toNat + ask.toNat < 2 ^ 63 := by
  obtain ⟨hb, _, hblt⟩ := toInt_of_pos hbid
  obtain ⟨ha, _, halt⟩ := toInt_of_pos hask
  have hpos := Int64.lt_iff_toInt_lt.mp hmid
  have hsum : (bid.toInt64 + ask.toInt64).toInt =
      ((bid.toNat + ask.toNat : Nat) : Int).bmod (2 ^ 64) := by
    rw [Int64.toInt_add, hb, ha]
    push_cast
    rfl
  have hzero : (0 : Int64).toInt = 0 := rfl
  have htwo : (2 : Int64).toInt = 2 := rfl
  rw [hzero, Int64.toInt_div, hsum, htwo] at hpos
  rw [Int64.toInt_div, hsum, htwo]
  by_cases hfit : bid.toNat + ask.toNat < 2 ^ 63
  · have hbmod : ((bid.toNat + ask.toNat : Nat) : Int).bmod (2 ^ 64) = (bid.toNat + ask.toNat : Nat) := by
      rw [Int.bmod_def]
      split_ifs <;> omega
    refine ⟨?_, hfit⟩
    rw [hbmod, Int.tdiv_eq_ediv_of_nonneg (by omega), Int.bmod_def]
    split_ifs <;> omega
  · -- a sum from 2^63 on reads as negative, and so does its half
    exfalso
    have hbmod : ((bid.toNat + ask.toNat : Nat) : Int).bmod (2 ^ 64) =
        -(2 ^ 64 - (bid.toNat + ask.toNat : Nat)) := by
      rw [Int.bmod_def]
      split_ifs <;> omega
    rw [hbmod, Int.neg_tdiv, Int.tdiv_eq_ediv_of_nonneg (by omega), Int.bmod_def] at hpos
    split_ifs at hpos <;> omega

/-- The weighted mean of two prices lies between them. -/
theorem weighted_between {bid ask asz bsz : Int} (hle : bid ≤ ask) (ha : 0 ≤ asz)
    (hs : 0 ≤ bsz) (htotal : 0 < bsz + asz) :
    bid ≤ (bid * asz + ask * bsz) / (bsz + asz) ∧ (bid * asz + ask * bsz) / (bsz + asz) ≤ ask := by
  constructor
  · rw [Int.le_ediv_iff_mul_le htotal]
    nlinarith
  · refine Int.ediv_le_of_le_mul htotal ?_
    nlinarith

/-- Where the mid did not wrap, the microprice does not either. -/
theorem micro_between {bid ask : UInt64} (hbid : bid.toInt64.toInt = bid.toNat)
    (hask : ask.toInt64.toInt = ask.toNat) (hlt : bid.toNat < ask.toNat)
    (hfit : bid.toNat + ask.toNat < 2 ^ 63) {mid : Int64}
    (hmid : (bid.toNat : Int) ≤ mid.toInt ∧ mid.toInt ≤ ask.toNat) (bsz asz : UInt64) :
    (bid.toNat : Int) ≤ (microprice bid.toInt64 ask.toInt64 mid bsz asz true).toInt ∧
      (microprice bid.toInt64 ask.toInt64 mid bsz asz true).toInt ≤ ask.toNat := by
  have hbsz := bsz.toNat_lt
  have hasz := asz.toNat_lt
  have hsmall {n : Int} (hpos : 0 ≤ n) (hn : n < 2 ^ 127) : wrap128 n = n := by
    rw [wrap128, Int.bmod_def]
    split_ifs <;> omega
  have htotal : wrap128 ((bsz.toNat : Int) + asz.toNat) = bsz.toNat + asz.toNat :=
    hsmall (by omega) (by omega)
  -- each product is below 2^63 · 2^64, and so is the sum
  have hleft : (bid.toNat : Int) * asz.toNat ≤ bid.toNat * (2 ^ 64 - 1) :=
    Int.mul_le_mul_of_nonneg_left (by omega) (by omega)
  have hright : (ask.toNat : Int) * bsz.toNat ≤ ask.toNat * (2 ^ 64 - 1) :=
    Int.mul_le_mul_of_nonneg_left (by omega) (by omega)
  have hleft0 : 0 ≤ (bid.toNat : Int) * asz.toNat :=
    Int.mul_nonneg (Int.natCast_nonneg _) (Int.natCast_nonneg _)
  have hright0 : 0 ≤ (ask.toNat : Int) * bsz.toNat :=
    Int.mul_nonneg (Int.natCast_nonneg _) (Int.natCast_nonneg _)
  have hsum : (bid.toNat : Int) * asz.toNat + ask.toNat * bsz.toNat < 2 ^ 127 := by omega
  rw [microprice]
  simp only [htotal, hbid, hask, hsmall hleft0 (by omega), hsmall hright0 (by omega),
    hsmall (add_nonneg hleft0 hright0) hsum, true_and]
  split_ifs with hpos
  · have hle : (bid.toNat : Int) ≤ ask.toNat := by omega
    have hasz0 : (0 : Int) ≤ asz.toNat := Int.natCast_nonneg _
    have hbsz0 : (0 : Int) ≤ bsz.toNat := Int.natCast_nonneg _
    obtain ⟨hlow, hhigh⟩ := weighted_between hle hasz0 hbsz0 hpos
    rw [Int.tdiv_eq_ediv_of_nonneg (add_nonneg hleft0 hright0),
      Int64.toInt_ofInt_of_le (by omega) (by omega)]
    exact ⟨hlow, hhigh⟩
  · exact hmid

/-- A tick with a mid is one of an open touch of the book. -/
theorem tickOf_buildTick {e : Engine} {depthLevels : Nat} {ev : Event} {t : TickFrame}
    (h : e.buildTick depthLevels ev = some t) (hsent : t.midTicks > 0) :
    ∃ bid ask, e.book.bestBid = some bid ∧ e.book.bestAsk = some ask ∧ TickOf bid ask t := by
  simp only [buildTick, Option.bind_eq_bind, Option.bind_eq_some_iff] at h
  obtain ⟨bidDepth, _, askDepth, _, ht⟩ := h
  cases ht
  dsimp only at hsent
  by_cases htwo : (e.book.bestBid.getD 0).toInt64 > 0 ∧ (e.book.bestAsk.getD 0).toInt64 > 0 ∧
      (e.book.bestAsk.getD 0).toInt64 > (e.book.bestBid.getD 0).toInt64
  · have hdec := decide_eq_true htwo
    obtain ⟨hbid, hask, hopen⟩ := htwo
    simp only [hdec, if_true] at hsent ⊢
    cases hbb : e.book.bestBid with
    | none =>
      rw [hbb] at hbid
      exact absurd hbid (by decide)
    | some bid =>
      cases hba : e.book.bestAsk with
      | none =>
        rw [hba] at hask
        exact absurd hask (by decide)
      | some ask =>
        simp only [hbb, hba, Option.getD_some] at hbid hask hopen hsent ⊢
        obtain ⟨hb, hb0, _⟩ := toInt_of_pos hbid
        obtain ⟨ha, _, _⟩ := toInt_of_pos hask
        have hlt : bid.toNat < ask.toNat := by
          have hlt := Int64.lt_iff_toInt_lt.mp hopen
          rw [hb, ha] at hlt
          omega
        obtain ⟨hmid, hfit⟩ := mid_exact hbid hask hsent
        refine ⟨bid, ask, rfl, rfl, ⟨hb0, hlt⟩, hmid, ?_, ?_⟩
        · rw [Int64.toInt_sub, hb, ha, Int.bmod_def]
          split_ifs <;> omega
        · have hbetween : (bid.toNat : Int) ≤ ((bid.toInt64 + ask.toInt64) / 2).toInt ∧
              ((bid.toInt64 + ask.toInt64) / 2).toInt ≤ ask.toNat := by
            rw [hmid]
            omega
          have hmicro := micro_between hb ha hlt hfit hbetween e.book.bestBidSize e.book.bestAskSize
          dsimp only
          exact hmicro
  · rw [decide_eq_false htwo, if_neg Bool.false_ne_true] at hsent
    exact absurd hsent (by decide)

/-- What a print says of the book before it. -/
structure TradeOf (book : HotOrderBook 256) (ev : Event) (t : TradeFrame) : Prop where
  event : Trades ev ∧ t.tsNs = ev.ts ∧ t.qty = ev.qty
  priced : 0 < t.priceTicks
  own : 0 < ev.price → t.priceTicks = ev.price
  resting : ev.price = 0 →
    (if ev.side = 1 then book.bestAsk else book.bestBid) = some t.priceTicks
  buy : t.aggressor = 1 → ∃ ask, book.bestAsk = some ask ∧ 0 < ask ∧ ask ≤ t.priceTicks ∧
    ∀ bid, book.bestBid = some bid → bid < ask
  sell : t.aggressor = -1 → ∃ bid, book.bestBid = some bid ∧ 0 < bid ∧ t.priceTicks ≤ bid ∧
    ∀ ask, book.bestAsk = some ask → 0 < ask → bid < ask

/-- A price read off the touch is one of the touch when it is not 0. -/
theorem some_of_getD {o : Option UInt64} (h : 0 < o.getD 0) : o = some (o.getD 0) := by
  cases o with
  | none => exact absurd h (by decide)
  | some p => rfl

/-- The classification by the touch. -/
theorem aggressor_cases (book : HotOrderBook 256) (price : UInt64) :
    aggressor book price = 0 ∨
    ¬ (book.bestBid.getD 0 > 0 ∧ book.bestAsk.getD 0 > 0 ∧
        book.bestBid.getD 0 ≥ book.bestAsk.getD 0) ∧
      (aggressor book price = 1 ∧ 0 < book.bestAsk.getD 0 ∧ book.bestAsk.getD 0 ≤ price ∨
        aggressor book price = -1 ∧ 0 < book.bestBid.getD 0 ∧ price ≤ book.bestBid.getD 0) := by
  simp only [aggressor]
  split_ifs with hcrossed hask hbid
  · exact .inl rfl
  · exact .inr ⟨hcrossed, .inl ⟨rfl, hask⟩⟩
  · exact .inr ⟨hcrossed, .inr ⟨rfl, hbid⟩⟩
  · exact .inl rfl

theorem tradeOf_tradeFrame {seq : UInt64} {book : HotOrderBook 256} {ev : Event} {t : TradeFrame}
    (h : tradeFrame seq book ev = some t) : t.seq = seq ∧ TradeOf book ev t := by
  simp only [tradeFrame] at h
  split_ifs at h with htrade hzero
  cases h
  have hpos : 0 < tradePrice book ev := UInt64.pos_iff_ne_zero.mpr hzero
  refine ⟨rfl, ⟨htrade, rfl, rfl⟩, hpos, ?_, ?_, ?_, ?_⟩
  · intro hown
    exact if_pos hown
  · intro hnone
    have hprice : tradePrice book ev =
        (if ev.side = 1 then book.bestAsk else book.bestBid).getD 0 := by
      rw [tradePrice, if_neg (by rw [hnone]; decide)]
      split_ifs <;> rfl
    dsimp only
    rw [hprice] at hpos ⊢
    exact some_of_getD hpos
  · intro hbuy
    rcases aggressor_cases book (tradePrice book ev) with hnone | ⟨hcrossed, hside⟩
    · exact absurd (hnone.symm.trans hbuy) (by decide)
    · rcases hside with ⟨_, hask, hle⟩ | ⟨hsell, _⟩
      · refine ⟨_, some_of_getD hask, hask, hle, ?_⟩
        intro bid hbb
        rw [hbb, Option.getD_some] at hcrossed
        by_contra hge
        have hle := UInt64.not_lt.mp hge
        exact hcrossed ⟨UInt64.lt_of_lt_of_le hask hle, hask, hle⟩
      · exact absurd (hsell.symm.trans hbuy) (by decide)
  · intro hsell
    rcases aggressor_cases book (tradePrice book ev) with hnone | ⟨hcrossed, hside⟩
    · exact absurd (hnone.symm.trans hsell) (by decide)
    · rcases hside with ⟨hbuy, _⟩ | ⟨_, hbid, hle⟩
      · exact absurd (hbuy.symm.trans hsell) (by decide)
      · refine ⟨_, some_of_getD hbid, hbid, hle, ?_⟩
        intro ask hba hpos'
        rw [hba, Option.getD_some] at hcrossed
        by_contra hge
        exact hcrossed ⟨hbid, hpos', UInt64.not_lt.mp hge⟩

/-- What a ladder frame says of a book. -/
structure BookOf (book : HotOrderBook 256) (depthLevels : Nat) (b : BookFrame) : Prop where
  bids : b.bids <+: book.bids.ladder ∧ b.bids.length = min depthLevels book.bids.count.toNat
  asks : b.asks <+: book.asks.ladder ∧ b.asks.length = min depthLevels book.asks.count.toNat
  descending : b.bids.Pairwise fun l r => r.price < l.price
  ascending : b.asks.Pairwise fun l r => l.price < r.price

theorem bookOf_buildBook {e : Engine} (hg : e.book.GridInv) (depthLevels : Nat) :
    BookOf e.book depthLevels (e.buildBook depthLevels) := by
  have hbids := hg.bids.sorted
  have hasks := hg.asks.sorted
  refine ⟨⟨List.take_prefix _ _, ?_⟩, ⟨List.take_prefix _ _, ?_⟩, ?_, ?_⟩
  · rw [buildBook, List.length_take, Core.HalfBook.ladder_length hg.bids.count_le]
  · rw [buildBook, List.length_take, Core.HalfBook.ladder_length hg.asks.count_le]
  · exact (hbids.imp fun h => by simpa [Core.ahead] using h).sublist (List.take_sublist _ _)
  · exact (hasks.imp fun h => by simpa [Core.ahead] using h).sublist (List.take_sublist _ _)

/-- The depths of a tick are those of the ladders. -/
theorem depths_buildTick {e : Engine} (hg : e.book.GridInv) {depthLevels : Nat} {ev : Event}
    {t : TickFrame} (h : e.buildTick depthLevels ev = some t) :
    t.seq = e.seq ∧ t.bidDepth = ((e.book.bids.ladder.take depthLevels).map Level.totalQty).sum ∧
      t.askDepth = ((e.book.asks.ladder.take depthLevels).map Level.totalQty).sum := by
  simp only [buildTick, HotOrderBook.bidDepth, HotOrderBook.askDepth,
    Core.HotOrderBook.depthSum_ladder hg.bids.count_le,
    Core.HotOrderBook.depthSum_ladder hg.asks.count_le, Option.bind_eq_bind, Option.bind_some] at h
  cases h
  exact ⟨rfl, rfl, rfl⟩

end Flowlab.Engine
