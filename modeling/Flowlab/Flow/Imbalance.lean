import Flowlab.Core.DepthSum
import Flowlab.Framework.RoundingOrder

namespace Flowlab.Flow

open Flowlab.Core (EventType HotOrderBook)
open Framework.Rounding

/-- `book_imbalance`; `none` is an index out of bounds, and the total wraps, as a release build has
it. -/
def bookImbalance {M : Nat} (book : HotOrderBook M) (levels : Nat) : Option Fp := do
  let bidQty ← book.bidDepth levels
  let askQty ← book.askDepth levels
  let total := bidQty + askQty
  if total = 0 then pure (.fin 0)
  else pure (.div (.sub (.ofU64 bidQty) (.ofU64 askQty)) (.ofU64 total))

theorem ofU64_eq (n : UInt64) : Fp.ofU64 n = .fin (rnd n.toNat) := by
  refine Fp.ofRat_of_abs_le (k := 64) (by norm_num) ?_
  rw [abs_of_nonneg (Nat.cast_nonneg _)]
  exact_mod_cast n.toNat_lt.le

/-- The share by which one side outweighs the other, with every operation rounded. -/
theorem share_spec {b a : ℚ} (hb : 0 ≤ b) (ha : 0 ≤ a) (hsome : 1 ≤ b + a)
    (hroom : b + a ≤ 2 ^ 64) :
    ∃ r, Fp.div (.sub (.fin (rnd b)) (.fin (rnd a))) (.fin (rnd (b + a))) = .fin r ∧ |r| ≤ 1 ∧
      (a ≤ b → 0 ≤ r) ∧ (b ≤ a → r ≤ 0) := by
  have hone : rnd 1 = 1 := by
    have hint := rnd_int (n := 1) (by norm_num)
    exact_mod_cast hint
  have htotal : 1 ≤ rnd (b + a) := by
    rw [← hone]
    exact rnd_mono hsome
  have hcap : rnd (b + a) ≤ 2 ^ 64 := by
    have hexact := rnd_exact (n := 1) (e := 64) (by norm_num) (by norm_num)
    norm_num at hexact
    rw [show (2 : ℚ) ^ 64 = 18446744073709551616 by norm_num] at hroom ⊢
    rw [← hexact]
    exact rnd_mono hroom
  have hbpart : rnd b ≤ rnd (b + a) := rnd_mono (by linarith)
  have hapart : rnd a ≤ rnd (b + a) := rnd_mono (by linarith)
  have hb0 := rnd_nonneg hb
  have ha0 := rnd_nonneg ha
  have hdiff : |rnd b - rnd a| ≤ rnd (b + a) := abs_le.mpr ⟨by linarith, by linarith⟩
  have hrnd : |rnd (rnd b - rnd a)| ≤ rnd (b + a) := by
    rw [← rnd_abs, ← rnd_rnd (b + a)]
    exact rnd_mono hdiff
  have hsub : Fp.sub (.fin (rnd b)) (.fin (rnd a)) = .fin (rnd (rnd b - rnd a)) := by
    rw [Fp.sub, Fp.neg, Fp.add, ← sub_eq_add_neg]
    exact Fp.ofRat_of_abs_le (k := 64) (by norm_num) (hdiff.trans hcap)
  have hpos : 0 < rnd (b + a) := zero_lt_one.trans_le htotal
  have hquot : |rnd (rnd b - rnd a) / rnd (b + a)| ≤ 1 := by
    rw [abs_div, abs_of_pos hpos]
    exact (div_le_one hpos).mpr hrnd
  refine ⟨rnd (rnd (rnd b - rnd a) / rnd (b + a)), ?_, ?_, ?_, ?_⟩
  · rw [hsub, Fp.div, if_neg hpos.ne']
    exact Fp.ofRat_of_abs_le (k := 0) (by norm_num) (by rwa [pow_zero])
  · rw [← rnd_abs, ← hone]
    exact rnd_mono hquot
  · intro hle
    exact rnd_nonneg (div_nonneg (rnd_nonneg (sub_nonneg.mpr (rnd_mono hle))) hpos.le)
  · intro hle
    have hneg := rnd_nonneg (div_nonneg (rnd_nonneg (sub_nonneg.mpr (rnd_mono hle))) hpos.le)
    rw [← neg_sub, rnd_neg, neg_div, rnd_neg]
    exact neg_nonpos.mpr hneg

/-- **The imbalance is a ratio.** In every state a book can reach it lies between -1 and 1 and never
has the sign of the lighter side, in binary64, where the two depths have a sum; a difference that
gets lost in the rounding leaves 0. -/
theorem imbalance_bounded {M : Nat} (hM : M < 2 ^ 32) {book : HotOrderBook M}
    (h : book.Reachable) (levels : Nat) :
    ∃ bid ask, book.bidDepth levels = some bid ∧ book.askDepth levels = some ask ∧
      (bid.toNat + ask.toNat < 2 ^ 64 → ∃ r, bookImbalance book levels = some (.fin r) ∧ |r| ≤ 1 ∧
        (ask ≤ bid → 0 ≤ r) ∧ (bid ≤ ask → r ≤ 0)) := by
  obtain ⟨hbid, hask⟩ := HotOrderBook.depths_reachable hM h levels
  refine ⟨_, _, hbid, hask, ?_⟩
  generalize ((book.view.bids.take levels).map Core.Level.totalQty).sum = bid at hbid ⊢
  generalize ((book.view.asks.take levels).map Core.Level.totalQty).sum = ask at hask ⊢
  intro hroom
  have htotal : (bid + ask).toNat = bid.toNat + ask.toNat := by
    rw [UInt64.toNat_add, Nat.mod_eq_of_lt hroom]
  simp only [bookImbalance, hbid, hask, Option.bind_eq_bind, Option.bind_some, Option.pure_def]
  split_ifs with hzero
  · exact ⟨0, rfl, by norm_num, fun _ => le_rfl, fun _ => le_rfl⟩
  · have hsome : 0 < bid.toNat + ask.toNat := by
      rw [← htotal]
      exact Nat.pos_of_ne_zero fun hz => hzero (UInt64.toNat_inj.mp hz)
    obtain ⟨r, hr, hle, hbids, hasks⟩ := share_spec (b := bid.toNat) (a := ask.toNat)
      (Nat.cast_nonneg _) (Nat.cast_nonneg _) (by exact_mod_cast hsome) (by exact_mod_cast hroom.le)
    refine ⟨r, ?_, hle, ?_, ?_⟩
    · rw [ofU64_eq, ofU64_eq, ofU64_eq, htotal, Nat.cast_add, hr]
    · exact fun hside => hbids (by exact_mod_cast hside)
    · exact fun hside => hasks (by exact_mod_cast hside)

/-- One bid against two asks. -/
theorem imbalance_bounded_three :
    let book := (HotOrderBook.new 4 1).run [⟨1, 100, 9, 1, 1, EventType.orderAdd.toU8, 0⟩,
      ⟨2, 103, 3, 2, 1, EventType.orderAdd.toU8, 1⟩, ⟨3, 104, 4, 3, 1, EventType.orderAdd.toU8, 1⟩]
    book.bidDepth 2 = some 9 ∧ book.askDepth 2 = some 7 ∧
      ∃ r, bookImbalance book 2 = some (.fin r) ∧ |r| ≤ 1 ∧ 0 ≤ r := by
  intro book
  have hdepths : book.bidDepth 2 = some 9 ∧ book.askDepth 2 = some 7 := by decide +kernel
  have hroom : 4 < 2 ^ 32 := by norm_num
  obtain ⟨bid, ask, hbid, hask, hratio⟩ := imbalance_bounded hroom ⟨1, _, rfl⟩ 2
  obtain rfl := Option.some.inj (hbid.symm.trans hdepths.1)
  obtain rfl := Option.some.inj (hask.symm.trans hdepths.2)
  obtain ⟨r, hr, hle, hheavier, -⟩ := hratio (by decide)
  exact ⟨hdepths.1, hdepths.2, r, hr, hle, hheavier (by decide)⟩

end Flowlab.Flow
