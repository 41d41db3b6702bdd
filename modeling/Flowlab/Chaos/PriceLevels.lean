import Flowlab.Chaos.Chain
import Flowlab.Chaos.Shadow

namespace Flowlab.Chaos

open Std Framework
open Flowlab.Core (Event Side OrderMeta satSub64)

/-! The best price of one side. -/

/-- The best key of a side's map: the highest bid, the lowest ask. -/
def bestKey (s : Side) (t : ExtTreeMap UInt64 UInt64) : Option UInt64 :=
  match s with
  | .bid => t.maxKey?
  | .ask => t.minKey?

/-- One price comes before another on its side. -/
def Better (s : Side) (p q : UInt64) : Prop :=
  match s with
  | .bid => q < p
  | .ask => p < q

instance (s : Side) (p q : UInt64) : Decidable (Better s p q) :=
  match s with
  | .bid => inferInstanceAs (Decidable (q < p))
  | .ask => inferInstanceAs (Decidable (p < q))

/-- The better of a new price and the best so far. -/
def improved (s : Side) (p : UInt64) : Option UInt64 → UInt64
  | some b => if Better s p b then p else b
  | none => p

theorem bestKey_insert (s : Side) (t : ExtTreeMap UInt64 UInt64) (p v : UInt64) :
    bestKey s (t.insert p v) = some (improved s p (bestKey s t)) := by
  cases s with
  | bid =>
    simp only [bestKey, ExtTreeMap.maxKey?_insert]
    cases t.maxKey? with
    | none => rfl
    | some b =>
      simp only [Option.elim_some, improved, Better, isLE_compare]
      grind
  | ask =>
    simp only [bestKey, ExtTreeMap.minKey?_insert]
    cases t.minKey? with
    | none => rfl
    | some b =>
      simp only [Option.elim_some, improved, Better, isLE_compare]
      grind

/-- The mid, read off the sorted keys of both sides. -/
theorem MiniBook.midprice_eq_keys (b : MiniBook) :
    b.midprice = mid b.bids.keys.getLast? b.asks.keys.head? := by
  rw [midprice, bestBid, bestAsk, ExtTreeMap.maxKey?_eq_getLast?_keys,
    ExtTreeMap.minKey?_eq_head?_keys]

theorem bestKey_erase {s : Side} {t : ExtTreeMap UInt64 UInt64} {p : UInt64}
    (h : bestKey s t ≠ some p) : bestKey s (t.erase p) = bestKey s t := by
  have hne {b : UInt64} (hb : bestKey s t = some b) : ¬ compare p b = .eq := by
    intro hc
    rw [LawfulEqOrd.eq_of_compare hc] at h
    exact h hb
  cases s with
  | bid => exact ExtTreeMap.maxKey?_erase_eq_of_not_compare_eq_maxKey? (fun hb => hne hb)
  | ask => exact ExtTreeMap.minKey?_erase_eq_of_not_compare_eq_minKey? (fun hb => hne hb)

theorem mem_iff_get (t : ExtTreeMap UInt64 UInt64) (p : UInt64) : p ∈ t ↔ t[p]? ≠ none := by
  rw [← Option.isSome_iff_ne_none, ExtTreeMap.mem_iff_isSome_getElem?]

/-- The best key is bound, and no bound key is better. -/
theorem bestKey_eq_some_iff {s : Side} {t : ExtTreeMap UInt64 UInt64} {b : UInt64} :
    bestKey s t = some b ↔ t[b]? ≠ none ∧ ∀ k : UInt64, t[k]? ≠ none → ¬ Better s k b := by
  cases s with
  | bid =>
    simp only [bestKey, ExtTreeMap.maxKey?_eq_some_iff_mem_and_forall, mem_iff_get, isLE_compare,
      Better, UInt64.not_lt]
  | ask =>
    simp only [bestKey, ExtTreeMap.minKey?_eq_some_iff_mem_and_forall, mem_iff_get, isLE_compare,
      Better, UInt64.not_lt]

theorem farthest_eq_some_iff {s : Side} {t : ExtTreeMap UInt64 UInt64} {b : UInt64} :
    farthest t s.toU8 = some b ↔ t[b]? ≠ none ∧ ∀ k : UInt64, t[k]? ≠ none → ¬ Better s b k := by
  cases s with
  | bid =>
    have hside : farthest t Side.bid.toU8 = t.minKey? := rfl
    simp only [hside, ExtTreeMap.minKey?_eq_some_iff_mem_and_forall, mem_iff_get, isLE_compare,
      Better, UInt64.not_lt]
  | ask =>
    have hside : farthest t Side.ask.toU8 = t.maxKey? := rfl
    simp only [hside, ExtTreeMap.maxKey?_eq_some_iff_mem_and_forall, mem_iff_get, isLE_compare,
      Better, UInt64.not_lt]

/-- Maps that bind the same keys have the same best key. -/
theorem bestKey_congr {s : Side} {t u : ExtTreeMap UInt64 UInt64}
    (h : ∀ k : UInt64, t[k]? = none ↔ u[k]? = none) : bestKey s t = bestKey s u := by
  apply Option.ext
  intro b
  simp only [bestKey_eq_some_iff, ne_eq, h]

theorem farthest_eq_none_iff {s : Side} {t : ExtTreeMap UInt64 UInt64} :
    farthest t s.toU8 = none ↔ t = ∅ := by
  cases s with
  | bid => simp [farthest, Side.toU8]
  | ask => simp [farthest, Side.toU8]

theorem not_better_both {s : Side} {p q : UInt64} (h : ¬ Better s p q) (h' : ¬ Better s q p) :
    p = q := by
  cases s with
  | bid => exact le_antisymm (UInt64.not_lt.mp h) (UInt64.not_lt.mp h')
  | ask => exact le_antisymm (UInt64.not_lt.mp h') (UInt64.not_lt.mp h)

/-- With two levels or more the farthest is not the best. -/
theorem farthest_ne_bestKey {s : Side} {t : ExtTreeMap UInt64 UInt64} {p : UInt64}
    (hf : farthest t s.toU8 = some p) (hsize : 1 < t.size) : bestKey s t ≠ some p := by
  intro hb
  obtain ⟨hp, hbest⟩ := bestKey_eq_some_iff.mp hb
  have hfar := (farthest_eq_some_iff.mp hf).2
  obtain ⟨v, hv⟩ := Option.ne_none_iff_exists'.mp hp
  have hempty : t.erase p = ∅ := by
    apply ExtTreeMap.ext_getElem?
    intro k
    rw [FiniteMap.get_erase]
    split_ifs with hk
    · simp
    · rw [ExtTreeMap.getElem?_empty]
      by_contra hbound
      exact hk (not_better_both (hbest k hbound) (hfar k hbound))
  have hsizes := FiniteMap.size_erase_bound t p v hv
  rw [hempty, ExtTreeMap.size_empty] at hsizes
  omega

/-- Pruning after an insertion: nothing happens within the cap, else the farthest level goes. -/
theorem pruneLevels_cases (s : Side) {t : ExtTreeMap UInt64 UInt64} {cap : Nat}
    (h : t.size ≤ cap + 1) :
    (t.size ≤ cap ∧ pruneLevels t s.toU8 cap = t) ∨
    (t.size = cap + 1 ∧ ∃ p v, farthest t s.toU8 = some p ∧ t[p]? = some v ∧
      pruneLevels t s.toU8 cap = t.erase p) := by
  by_cases hcap : t.size ≤ cap
  · exact Or.inl ⟨hcap, MiniBook.pruneLevels_within hcap⟩
  · have hsize : t.size = cap + 1 := by omega
    refine Or.inr ⟨hsize, ?_⟩
    cases hf : farthest t s.toU8 with
    | none =>
      rw [farthest_eq_none_iff.mp hf, ExtTreeMap.size_empty] at hsize
      omega
    | some p =>
      obtain ⟨v, hv⟩ := Option.ne_none_iff_exists'.mp (farthest_eq_some_iff.mp hf).1
      have hrest := FiniteMap.size_erase_bound t p v hv
      refine ⟨p, v, rfl, hv, ?_⟩
      have hlt : cap < cap + 1 := Nat.lt_succ_self cap
      rw [pruneLevels, hsize, pruneLoop, hsize, if_pos hlt, hf]
      cases cap with
      | zero => rfl
      | succ n =>
        dsimp only
        rw [pruneLoop, if_neg (by omega)]

theorem bestKey_prune {s : Side} {t : ExtTreeMap UInt64 UInt64} {cap : Nat} (hcap : 1 ≤ cap)
    (h : t.size ≤ cap + 1) : bestKey s (pruneLevels t s.toU8 cap) = bestKey s t := by
  rcases pruneLevels_cases s h with ⟨_, he⟩ | ⟨hsize, p, v, hf, _, he⟩
  · rw [he]
  · rw [he, bestKey_erase (farthest_ne_bestKey hf (by omega))]

theorem size_prune {s : Side} {t : ExtTreeMap UInt64 UInt64} {cap : Nat} (h : t.size ≤ cap + 1) :
    (pruneLevels t s.toU8 cap).size ≤ cap := by
  rcases pruneLevels_cases s h with ⟨hle, he⟩ | ⟨hsize, p, v, _, hv, he⟩
  · rw [he]
    exact hle
  · have hrest := FiniteMap.size_erase_bound t p v hv
    rw [he]
    omega

/-! Sums of quantities. -/

/-- The quantity of all levels of a map. -/
def heldQty (t : ExtTreeMap UInt64 UInt64) : Nat := FiniteMap.total (fun _ q => q.toNat) t

/-- The prices of the band below or above a best price. -/
def InBand (ticks : UInt64) (s : Side) (best p : UInt64) : Prop :=
  match s with
  | .bid => satSub64 best ticks ≤ p ∧ p ≤ best
  | .ask => best ≤ p ∧ p ≤ satAdd64 best ticks

instance (ticks : UInt64) (s : Side) (best p : UInt64) : Decidable (InBand ticks s best p) := by
  cases s
  · exact inferInstanceAs (Decidable (satSub64 best ticks ≤ p ∧ p ≤ best))
  · exact inferInstanceAs (Decidable (best ≤ p ∧ p ≤ satAdd64 best ticks))

/-- The quantity of the levels in the band. -/
def bandQty (ticks : UInt64) (s : Side) (best : UInt64) (t : ExtTreeMap UInt64 UInt64) : Nat :=
  FiniteMap.total (fun p q => if InBand ticks s best p then q.toNat else 0) t

theorem bandQty_le (ticks : UInt64) (s : Side) (best : UInt64) (t : ExtTreeMap UInt64 UInt64) :
    bandQty ticks s best t ≤ heldQty t := by
  refine FiniteMap.total_mono _ _ t ?_
  intro p q _
  split_ifs <;> omega

theorem heldQty_put (t : ExtTreeMap UInt64 UInt64) (p : UInt64) (o : Option UInt64) :
    heldQty (FiniteMap.put t p o) + (t[p]?.getD (0 : UInt64)).toNat = (o.getD 0).toNat + heldQty t := by
  have h := FiniteMap.total_put (fun _ q => q.toNat) t p o
  rw [heldQty, heldQty]
  cases o <;> cases ht : t[p]? <;> rw [ht] at h <;> simpa using h

theorem bandQty_put (ticks : UInt64) (s : Side) (best : UInt64) (t : ExtTreeMap UInt64 UInt64)
    (p : UInt64) (o : Option UInt64) :
    bandQty ticks s best (FiniteMap.put t p o) +
        (if InBand ticks s best p then (t[p]?.getD (0 : UInt64)).toNat else 0) =
      (if InBand ticks s best p then (o.getD 0).toNat else 0) + bandQty ticks s best t := by
  have h := FiniteMap.total_put (fun p q => if InBand ticks s best p then q.toNat else 0) t p o
  rw [bandQty, bandQty]
  cases o <;> cases ht : t[p]? <;> rw [ht] at h <;> split_ifs at h ⊢ <;> simpa using h

theorem get_le_heldQty (t : ExtTreeMap UInt64 UInt64) (p : UInt64) :
    (t[p]?.getD (0 : UInt64)).toNat ≤ heldQty t := by
  cases hv : t[p]? with
  | none => simp
  | some v => exact FiniteMap.total_pos (fun _ (q : UInt64) => q.toNat) t p v hv

theorem toNat_more {t : ExtTreeMap UInt64 UInt64} {q : UInt64} (h : heldQty t + q.toNat < 2 ^ 64)
    (p : UInt64) : (t[p]?.getD 0 + q).toNat = (t[p]?.getD (0 : UInt64)).toNat + q.toNat := by
  have hle := get_le_heldQty t p
  rw [UInt64.toNat_add, Nat.mod_eq_of_lt (by omega)]

theorem heldQty_more {t : ExtTreeMap UInt64 UInt64} {q : UInt64} (h : heldQty t + q.toNat < 2 ^ 64)
    (p : UInt64) : heldQty (t.insert p (t[p]?.getD 0 + q)) = heldQty t + q.toNat := by
  have hput := heldQty_put t p (some (t[p]?.getD 0 + q))
  rw [Option.getD_some, toNat_more h p] at hput
  simp only [FiniteMap.put] at hput
  omega

theorem bandQty_more {t : ExtTreeMap UInt64 UInt64} {q : UInt64} (h : heldQty t + q.toNat < 2 ^ 64)
    (ticks : UInt64) (s : Side) (best p : UInt64) :
    bandQty ticks s best (t.insert p (t[p]?.getD 0 + q)) =
      bandQty ticks s best t + if InBand ticks s best p then q.toNat else 0 := by
  have hput := bandQty_put ticks s best t p (some (t[p]?.getD 0 + q))
  rw [Option.getD_some, toNat_more h p] at hput
  simp only [FiniteMap.put] at hput
  split_ifs at hput ⊢ <;> omega

theorem heldQty_prune_le (s : Side) {t : ExtTreeMap UInt64 UInt64} {cap : Nat}
    (h : t.size ≤ cap + 1) : heldQty (pruneLevels t s.toU8 cap) ≤ heldQty t := by
  rcases pruneLevels_cases s h with ⟨_, he⟩ | ⟨_, p, v, _, hv, he⟩
  · rw [he]
  · have hput := heldQty_put t p none
    rw [he]
    simp only [FiniteMap.put, hv, Option.getD_some, Option.getD_none, UInt64.toNat_zero] at hput
    omega

/-- What one subtraction takes from an entry of the price map. -/
def removed (qty : UInt64) : Option UInt64 → UInt64
  | some entry => if qty = 0 then entry else min qty entry
  | none => 0

theorem removed_le (qty : UInt64) (o : Option UInt64) : removed qty o ≤ o.getD 0 := by
  cases o with
  | none => exact le_refl _
  | some v =>
    simp only [removed, Option.getD_some]
    split_ifs
    · exact le_refl _
    · show (if qty ≤ v then qty else v) ≤ v
      split_ifs with hle
      · exact hle
      · exact le_refl _

theorem lessened_add_removed (qty : UInt64) (o : Option UInt64) :
    ((lessened qty o).getD 0).toNat + (removed qty o).toNat = (o.getD 0).toNat := by
  have hle := removed_le qty o
  cases o with
  | none => rfl
  | some v =>
    have hsub := UInt64.toNat_sub_of_le v (removed qty (some v)) hle
    have hnat := UInt64.le_iff_toNat_le.mp hle
    simp only [Option.getD_some] at hnat
    have hleft : (lessened qty (some v)).getD 0 = v - removed qty (some v) := by
      simp only [lessened, removed]
      split_ifs <;> simp_all
    rw [hleft, hsub, Option.getD_some]
    omega

/-- An entry goes exactly when all of it is taken. -/
theorem lessened_eq_none_iff (qty v : UInt64) :
    lessened qty (some v) = none ↔ v = removed qty (some v) := by
  have hle := removed_le qty (some v)
  simp only [Option.getD_some] at hle
  have hsub : v - removed qty (some v) = 0 ↔ v = removed qty (some v) := by grind
  rw [← hsub]
  simp only [lessened, removed]
  split_ifs <;> simp_all

theorem heldQty_less (t : ExtTreeMap UInt64 UInt64) (p q : UInt64) :
    heldQty (FiniteMap.put t p (lessened q t[p]?)) + (removed q t[p]?).toNat = heldQty t := by
  have hput := heldQty_put t p (lessened q t[p]?)
  have hsplit := lessened_add_removed q t[p]?
  omega

theorem bandQty_less (ticks : UInt64) (s : Side) (best : UInt64) (t : ExtTreeMap UInt64 UInt64)
    (p q : UInt64) :
    bandQty ticks s best (FiniteMap.put t p (lessened q t[p]?)) +
        (if InBand ticks s best p then (removed q t[p]?).toNat else 0) =
      bandQty ticks s best t := by
  have hput := bandQty_put ticks s best t p (lessened q t[p]?)
  have hsplit := lessened_add_removed q t[p]?
  split_ifs at hput ⊢ <;> omega

/-- A machine sum that does not overflow is the sum. -/
theorem foldl_sum_toNat (l : List (UInt64 × UInt64)) (c : UInt64 → Prop) [DecidablePred c]
    (z : UInt64)
    (h : z.toNat + (l.map fun r => if c r.1 then r.2.toNat else 0).sum < 2 ^ 64) :
    (l.foldl (fun z r => if c r.1 then z + r.2 else z) z).toNat =
      z.toNat + (l.map fun r => if c r.1 then r.2.toNat else 0).sum := by
  induction l generalizing z with
  | nil => simp
  | cons r l ih =>
    simp only [List.map_cons, List.sum_cons] at h
    rw [List.foldl_cons]
    by_cases hr : c r.1
    · simp only [if_pos hr] at h ⊢
      have hadd : (z + r.2).toNat = z.toNat + r.2.toNat := by
        rw [UInt64.toNat_add, Nat.mod_eq_of_lt (by omega)]
      rw [ih (z + r.2) (by omega), hadd, List.map_cons, List.sum_cons, if_pos hr]
      omega
    · simp only [if_neg hr] at h ⊢
      rw [ih z (by omega), List.map_cons, List.sum_cons, if_neg hr]
      omega

/-! The sides of the known orders. -/

namespace OrderTracker

/-- Every known order rests on one of the two sides. -/
def Sided (t : OrderTracker) : Prop :=
  ∀ (i : UInt64) (m : OrderMeta), t.orders[i]? = some m → ∃ s : Side, m.side = s.toU8

theorem sided_insert {t : OrderTracker} (h : t.Sided) (i : UInt64) {m : OrderMeta} {s : Side}
    (hm : m.side = s.toU8) : Sided ⟨t.orders.insert i m⟩ := by
  intro j n hn
  rw [FiniteMap.get_insert] at hn
  split_ifs at hn with hj
  · rw [← Option.some.inj hn]
    exact ⟨s, hm⟩
  · exact h j n hn

theorem sided_settle {t : OrderTracker} (h : t.Sided) {i : UInt64} {m : OrderMeta}
    (hm : t.orders[i]? = some m) (qty : UInt64) : (t.settle i m qty).Sided := by
  obtain ⟨s, hs⟩ := h i m hm
  simp only [settle]
  split_ifs
  · intro j n hn
    rw [FiniteMap.get_erase] at hn
    split_ifs at hn
    exact h j n hn
  · exact sided_insert h i hs

theorem sided_anonymous {side : UInt8} {price qty : UInt64} {u : ResolvedBookUpdate}
    (h : anonymousUpdate side price qty = some u) : ∃ s : Side, u.side = s.toU8 := by
  obtain ⟨s, _, rfl⟩ := MiniBook.side_of_anonymous h
  exact ⟨s, rfl⟩

/-- An add is reported as it came, and keeps the sides. -/
theorem sided_onAdd {t : OrderTracker} (h : t.Sided) (e : Event) :
    (t.onAdd e).1.Sided ∧
      ∀ u, (t.onAdd e).2 = some u → u.qty = e.qty ∧ ∃ s : Side, u.side = s.toU8 := by
  simp only [onAdd]
  cases hu : anonymousUpdate e.side e.price e.qty with
  | none => exact ⟨h, by simp⟩
  | some u =>
    obtain ⟨s, hs⟩ := sided_anonymous hu
    have hqty : u.qty = e.qty := by
      obtain ⟨_, _, rfl⟩ := MiniBook.side_of_anonymous hu
      rfl
    dsimp only
    split_ifs
    · refine ⟨sided_insert h e.orderId hs, ?_⟩
      simpa using ⟨hqty, s, hs⟩
    · refine ⟨h, ?_⟩
      simpa using ⟨hqty, s, hs⟩

theorem sided_onCancel {t : OrderTracker} (h : t.Sided) (e : Event) :
    (t.onCancel e).1.Sided ∧ ∀ u, (t.onCancel e).2 = some u → ∃ s : Side, u.side = s.toU8 := by
  simp only [onCancel]
  split_ifs
  · cases hm : t.orders[e.orderId]? with
    | none => exact ⟨h, by simp⟩
    | some m => exact ⟨sided_settle h hm _, by simpa using h e.orderId m hm⟩
  · cases hm : t.orders[e.orderId]? with
    | none => exact ⟨h, fun u hu => sided_anonymous hu⟩
    | some m => exact ⟨sided_settle h hm _, by simpa using h e.orderId m hm⟩
  · exact ⟨h, fun u hu => sided_anonymous hu⟩

theorem sided_anonymousTrade {e : Event} {r : ResolvedTrade} (h : anonymousTrade e = some r) :
    ∃ s : Side, r.update.side = s.toU8 := by
  simp only [anonymousTrade] at h
  split at h
  · exact absurd h (by simp)
  · next u hu =>
    split at h
    · exact absurd h (by simp)
    · rw [← Option.some.inj h]
      exact sided_anonymous hu

theorem sided_onTrade {t : OrderTracker} (h : t.Sided) (e : Event) :
    (t.onTrade e).1.Sided ∧ ∀ r, (t.onTrade e).2 = some r → ∃ s : Side, r.update.side = s.toU8 := by
  simp only [onTrade]
  by_cases hid : e.orderId ≠ 0
  · rw [if_pos hid]
    cases hm : t.orders[e.orderId]? with
    | none =>
      dsimp only
      split_ifs
      · exact ⟨h, by simp⟩
      · exact ⟨h, fun r hr => sided_anonymousTrade hr⟩
    | some m =>
      dsimp only
      split
      · exact ⟨h, by simp⟩
      · exact ⟨sided_settle h hm _, by simpa using h e.orderId m hm⟩
  · rw [if_neg hid]
    exact ⟨h, fun r hr => sided_anonymousTrade hr⟩

end OrderTracker

end Flowlab.Chaos
