import Flowlab.Chaos.PriceLevels

namespace Flowlab.Chaos

open Std Framework
open Flowlab.Core (Event EventType Side OrderMeta SequencedEvent satSub64 satSub64_toNat)

namespace FlashCrashDetector

theorem rangeSum_toNat {t : ExtTreeMap UInt64 UInt64} (h : heldQty t < 2 ^ 64) (lo hi : UInt64) :
    (rangeSum t lo hi).toNat =
      FiniteMap.total (fun p (q : UInt64) => if lo ≤ p ∧ p ≤ hi then q.toNat else 0) t := by
  have hle : FiniteMap.total (fun p (q : UInt64) => if lo ≤ p ∧ p ≤ hi then q.toNat else 0) t ≤ heldQty t := by
    refine FiniteMap.total_mono _ _ t ?_
    intro p q _
    split_ifs <;> omega
  have hsum := foldl_sum_toNat t.toList (fun p => lo ≤ p ∧ p ≤ hi) 0
  simp only [FiniteMap.total] at hle
  rw [rangeSum, ExtTreeMap.foldl_eq_foldl_toList, hsum (by simpa using hle.trans_lt h)]
  simp [FiniteMap.total]

/-- The depth around a touch, while the sums fit. -/
theorem depthInBandAround_toNat {d : FlashCrashDetector}
    (h : heldQty d.bids + heldQty d.asks < 2 ^ 64) (bb ba : UInt64) :
    (d.depthInBandAround bb ba).toNat =
      bandQty d.depthBandTicks .bid bb d.bids + bandQty d.depthBandTicks .ask ba d.asks := by
  have hb := bandQty_le d.depthBandTicks .bid bb d.bids
  have ha := bandQty_le d.depthBandTicks .ask ba d.asks
  have hbid : (rangeSum d.bids (satSub64 bb d.depthBandTicks) bb).toNat =
      bandQty d.depthBandTicks .bid bb d.bids := rangeSum_toNat (by omega) _ _
  have hask : (rangeSum d.asks ba (satAdd64 ba d.depthBandTicks)).toNat =
      bandQty d.depthBandTicks .ask ba d.asks := rangeSum_toNat (by omega) _ _
  rw [depthInBandAround, satAdd64_toNat, hbid, hask]
  omega

/-! What each helper of an update does to the caches. -/

/-- The map of one side. -/
def levels (d : FlashCrashDetector) (s : Side) : ExtTreeMap UInt64 UInt64 :=
  d.toMiniBook.book s.toU8

def cachedBest (d : FlashCrashDetector) (s : Side) : Option UInt64 :=
  match s with
  | .bid => d.cachedBb
  | .ask => d.cachedBa

theorem inBandSameSide_eq (d : FlashCrashDetector) (s : Side) (p : UInt64) :
    d.inBandSameSide s.toU8 p =
      match d.cachedBest s with
      | some b => decide (InBand d.depthBandTicks s b p)
      | none => false := by
  cases s with
  | bid =>
    have hside : d.inBandSameSide Side.bid.toU8 p = match d.cachedBb with
      | some bb => decide (satSub64 bb d.depthBandTicks ≤ p) && decide (p ≤ bb)
      | none => false := rfl
    rw [hside]
    simp only [cachedBest]
    cases d.cachedBb with
    | none => rfl
    | some b => exact (Bool.decide_and _ _).symm
  | ask =>
    have hside : d.inBandSameSide Side.ask.toU8 p = match d.cachedBa with
      | some ba => decide (ba ≤ p) && decide (p ≤ satAdd64 ba d.depthBandTicks)
      | none => false := rfl
    rw [hside]
    simp only [cachedBest]
    cases d.cachedBa with
    | none => rfl
    | some b => exact (Bool.decide_and _ _).symm

/-- Only the best prices differ. -/
structure SameButBest (d d' : FlashCrashDetector) : Prop where
  book : d'.toMiniBook = d.toMiniBook
  depth : d'.bandDepth = d.bandDepth
  valid : d'.bandDepthValid = d.bandDepthValid
  ticks : d'.depthBandTicks = d.depthBandTicks

/-- The cached best of one side replaced. -/
def setBest (d : FlashCrashDetector) (s : Side) (o : Option UInt64) : FlashCrashDetector :=
  match s with
  | .bid => { d with cachedBb := o }
  | .ask => { d with cachedBa := o }

theorem sameButBest_setBest (d : FlashCrashDetector) (s : Side) (o : Option UInt64) :
    SameButBest d (d.setBest s o) := by
  cases s <;> exact ⟨rfl, rfl, rfl, rfl⟩

@[simp] theorem setBest_cachedBest (d : FlashCrashDetector) (s : Side) (o : Option UInt64)
    (r : Side) : (d.setBest s o).cachedBest r = if r = s then o else d.cachedBest r := by
  cases s <;> cases r <;> rfl

theorem improveBest_eq (d : FlashCrashDetector) (s : Side) (p : UInt64) :
    d.improveBest s.toU8 p =
      match d.cachedBest s with
      | some b => if Better s p b then (d.setBest s (some p), true) else (d, false)
      | none => (d.setBest s (some p), true) := by
  cases s with
  | bid =>
    simp only [improveBest, Side.toU8, if_true, cachedBest, setBest, Better]
    cases d.cachedBb <;> rfl
  | ask =>
    simp only [improveBest, Side.toU8, show ¬ (1 : UInt8) = 0 by decide, if_false, cachedBest,
      setBest, Better]
    cases d.cachedBa <;> rfl

theorem retreatBest_eq (d : FlashCrashDetector) (s : Side) (p : UInt64) :
    d.retreatBest s.toU8 p =
      if d.cachedBest s = some p then (d.setBest s (bestKey s (d.levels s)), true)
      else (d, false) := by
  cases s with
  | bid =>
    simp only [retreatBest, Side.toU8, true_and, show ¬ (0 : UInt8) = 1 by decide, false_and,
      if_false]
    rfl
  | ask =>
    simp only [retreatBest, Side.toU8, true_and, show ¬ (1 : UInt8) = 0 by decide, false_and,
      if_false]
    rfl

/-- The cached best of the side takes the new price in; the flag tells whether it moved. -/
theorem improveBest_spec (d : FlashCrashDetector) (s : Side) (p : UInt64) :
    SameButBest d (d.improveBest s.toU8 p).1 ∧
    (∀ r, (d.improveBest s.toU8 p).1.cachedBest r =
      if r = s then some (improved s p (d.cachedBest s)) else d.cachedBest r) ∧
    ((d.improveBest s.toU8 p).2 = false → d.cachedBest s = some (improved s p (d.cachedBest s))) := by
  rw [improveBest_eq]
  cases hbest : d.cachedBest s with
  | none => exact ⟨d.sameButBest_setBest s _, fun r => by simp [improved], by simp⟩
  | some b =>
    dsimp only
    split_ifs with hbetter
    · exact ⟨d.sameButBest_setBest s _, fun r => by simp [improved, hbetter], by simp⟩
    · have hkeep : improved s p (some b) = b := if_neg hbetter
      refine ⟨⟨rfl, rfl, rfl, rfl⟩, fun r => ?_, fun _ => by rw [hkeep]⟩
      rw [hkeep]
      split_ifs with hr
      · rw [hr, hbest]
      · rfl

/-- The cached best is read anew exactly when its own level went. -/
theorem retreatBest_spec (d : FlashCrashDetector) (s : Side) (p : UInt64) :
    SameButBest d (d.retreatBest s.toU8 p).1 ∧
    (∀ r, (d.retreatBest s.toU8 p).1.cachedBest r =
      if r = s ∧ d.cachedBest s = some p then bestKey s (d.levels s) else d.cachedBest r) ∧
    ((d.retreatBest s.toU8 p).2 = false → d.cachedBest s ≠ some p) := by
  rw [retreatBest_eq]
  split_ifs with hbest
  · exact ⟨d.sameButBest_setBest s _, fun r => by simp [hbest], by simp⟩
  · exact ⟨⟨rfl, rfl, rfl, rfl⟩, fun r => by simp [hbest], fun _ => hbest⟩

/-- The depth of the band on one side, next to its cached best. -/
def bandOf (d : FlashCrashDetector) (s : Side) : Nat :=
  match d.cachedBest s with
  | some b => bandQty d.depthBandTicks s b (d.levels s)
  | none => 0

/-- The caches tell what the book holds. -/
structure CachesHold (d : FlashCrashDetector) : Prop where
  cap : 1 ≤ d.maxBookLevels
  best : ∀ s, d.cachedBest s = bestKey s (d.levels s)
  sizes : ∀ s, (d.levels s).size ≤ d.maxBookLevels
  fits : heldQty (d.levels .bid) + heldQty (d.levels .ask) < 2 ^ 64
  sided : d.orderTracker.Sided
  depth : d.bandDepthValid = true → (∀ s, d.cachedBest s ≠ none) →
    d.bandDepth.toNat = d.bandOf .bid + d.bandOf .ask

theorem cachesHold_new (minGapBps gapWindowEvents : UInt32) {maxBookLevels : Nat}
    (hcap : 1 ≤ maxBookLevels) (depthBandTicks : UInt64) (depthDropPct : Float)
    (minAggrTrades : UInt32) (cooldownSeq : UInt64) :
    (new minGapBps gapWindowEvents maxBookLevels depthBandTicks depthDropPct minAggrTrades
      cooldownSeq).CachesHold where
  cap := hcap
  best s := by cases s <;> simp [cachedBest, new, bestKey, levels, MiniBook.new, MiniBook.book]
  sizes s := by cases s <;> simp [new, levels, MiniBook.new, MiniBook.book]
  fits := by
    have hempty : heldQty ∅ = 0 := FiniteMap.total_empty _
    simp [new, levels, MiniBook.new, MiniBook.book, hempty]
  sided i m hm := by simp [new, MiniBook.new, OrderTracker.new] at hm
  depth _ hbest := absurd rfl (hbest .bid)

theorem addQty_levels (d : FlashCrashDetector) (s r : Side) (p q : UInt64) :
    (d.addQty s.toU8 p q).levels r =
      if r = s then
        pruneLevels ((d.levels s).insert p ((d.levels s)[p]?.getD 0 + q)) s.toU8 d.maxBookLevels
      else d.levels r := by
  rw [levels, addQty_book, MiniBook.addQty, MiniBook.book_setBook]
  rfl

/-- The detector over another book. -/
def withBook (d : FlashCrashDetector) (m : MiniBook) : FlashCrashDetector :=
  { d with toMiniBook := m }

@[simp] theorem withBook_cachedBest (d : FlashCrashDetector) (m : MiniBook) (s : Side) :
    (d.withBook m).cachedBest s = d.cachedBest s := by
  cases s <;> rfl

/-- How an update leaves the cached depth: invalid, rewritten or as it was. -/
def redepth (d : FlashCrashDetector) (stale touched : Bool) (depth : UInt64) : FlashCrashDetector :=
  if stale then { d with bandDepthValid := false }
  else if touched then { d with bandDepth := depth }
  else d

theorem redepth_spec (d : FlashCrashDetector) (stale touched : Bool) (depth : UInt64) :
    (∀ s, (d.redepth stale touched depth).cachedBest s = d.cachedBest s) ∧
    (d.redepth stale touched depth).depthBandTicks = d.depthBandTicks ∧
    ((d.redepth stale touched depth).bandDepthValid = true →
      stale = false ∧ d.bandDepthValid = true ∧
      (touched = true → (d.redepth stale touched depth).bandDepth = depth) ∧
      (touched = false → (d.redepth stale touched depth).bandDepth = d.bandDepth)) := by
  cases stale with
  | true => exact ⟨fun s => by cases s <;> rfl, rfl, by simp [redepth]⟩
  | false =>
    cases touched with
    | true => exact ⟨fun s => by cases s <;> rfl, rfl, by simp [redepth]⟩
    | false => exact ⟨fun s => by cases s <;> rfl, rfl, by simp [redepth]⟩

theorem addQty_eq (d : FlashCrashDetector) (side : UInt8) (p q : UInt64) :
    d.addQty side p q =
      let book := (d.toMiniBook.book side).insert p ((d.toMiniBook.book side)[p]?.getD 0 + q)
      let r := (d.withBook (d.toMiniBook.addQty side p q)).improveBest side p
      r.1.redepth (r.2 || decide (book.size ≠ (pruneLevels book side d.maxBookLevels).size))
        (r.1.bandDepthValid && r.1.inBandSameSide side p) (satAdd64 r.1.bandDepth q) := rfl

/-- An add moves the cached best of its side, or leaves it and keeps the depth up to date. -/
theorem addQty_spec (d : FlashCrashDetector) (s : Side) (p q : UInt64) :
    (∀ r, (d.addQty s.toU8 p q).cachedBest r =
      if r = s then some (improved s p (d.cachedBest s)) else d.cachedBest r) ∧
    (d.addQty s.toU8 p q).depthBandTicks = d.depthBandTicks ∧
    ((d.addQty s.toU8 p q).bandDepthValid = true →
      d.bandDepthValid = true ∧ d.cachedBest s = some (improved s p (d.cachedBest s)) ∧
      ((d.levels s).insert p ((d.levels s)[p]?.getD 0 + q)).size =
        ((d.addQty s.toU8 p q).levels s).size ∧
      (InBand d.depthBandTicks s (improved s p (d.cachedBest s)) p →
        (d.addQty s.toU8 p q).bandDepth = satAdd64 d.bandDepth q) ∧
      (¬ InBand d.depthBandTicks s (improved s p (d.cachedBest s)) p →
        (d.addQty s.toU8 p q).bandDepth = d.bandDepth)) := by
  obtain ⟨hsame, hbest, hstay⟩ :=
    (d.withBook (d.toMiniBook.addQty s.toU8 p q)).improveBest_spec s p
  simp only [withBook_cachedBest] at hbest hstay
  rw [addQty_levels, if_pos rfl, addQty_eq]
  dsimp only
  generalize hr : (d.withBook (d.toMiniBook.addQty s.toU8 p q)).improveBest s.toU8 p = r
    at hsame hbest hstay
  have hin := r.1.inBandSameSide_eq s p
  rw [hbest s, if_pos rfl, hsame.ticks] at hin
  obtain ⟨hcached, hticks, hdepth⟩ := r.1.redepth_spec
    (r.2 || decide (((d.toMiniBook.book s.toU8).insert p
      ((d.toMiniBook.book s.toU8)[p]?.getD 0 + q)).size ≠ (pruneLevels ((d.toMiniBook.book s.toU8).insert p
      ((d.toMiniBook.book s.toU8)[p]?.getD 0 + q)) s.toU8 d.maxBookLevels).size))
    (r.1.bandDepthValid && r.1.inBandSameSide s.toU8 p) (satAdd64 r.1.bandDepth q)
  refine ⟨fun t => (hcached t).trans (hbest t), hticks.trans hsame.ticks, ?_⟩
  intro hv
  obtain ⟨hstale, hvalid, htouch, huntouch⟩ := hdepth hv
  rw [Bool.or_eq_false_iff, decide_eq_false_iff_not, not_not] at hstale
  have htouched : (r.1.bandDepthValid && r.1.inBandSameSide s.toU8 p) =
      decide (InBand d.depthBandTicks s (improved s p (d.cachedBest s)) p) := by
    rw [hvalid, Bool.true_and, hin]
    rfl
  refine ⟨hsame.valid.symm.trans hvalid, hstay hstale.1, hstale.2, ?_, ?_⟩
  · intro hb
    rw [htouch (htouched.trans (decide_eq_true hb)), hsame.depth]
    rfl
  · intro hb
    rw [huntouch (htouched.trans (decide_eq_false hb)), hsame.depth]
    rfl

theorem subQty_levels (d : FlashCrashDetector) (s r : Side) (p q : UInt64) :
    (d.subQty s.toU8 p q).levels r =
      if r = s then FiniteMap.put (d.levels s) p (lessened q (d.levels s)[p]?)
      else d.levels r := by
  rw [levels, subQty_book, MiniBook.subQty_eq, MiniBook.book_setBook]
  rfl

theorem subQty_eq (d : FlashCrashDetector) (side : UInt8) (p q : UInt64) :
    d.subQty side p q =
      let o := (d.toMiniBook.book side)[p]?
      let d₁ := d.withBook (d.toMiniBook.subQty side p q)
      let r := if o = some (removed q o) then d₁.retreatBest side p else (d₁, false)
      r.1.redepth r.2
        (r.1.bandDepthValid && decide (0 < removed q o) && r.1.inBandSameSide side p)
        (satSub64 r.1.bandDepth (removed q o)) := by
  simp only [subQty, decide_eq_true_eq]
  rfl

/-- The retreat of the best, made where the level went. -/
theorem retreatIf_spec (d : FlashCrashDetector) (s : Side) (p : UInt64) (c : Prop) [Decidable c] :
    SameButBest d (if c then d.retreatBest s.toU8 p else (d, false)).1 ∧
    (∀ r, (if c then d.retreatBest s.toU8 p else (d, false)).1.cachedBest r =
      if r = s ∧ d.cachedBest s = some p ∧ c then bestKey s (d.levels s) else d.cachedBest r) ∧
    ((if c then d.retreatBest s.toU8 p else (d, false)).2 = false → c → d.cachedBest s ≠ some p) := by
  by_cases hc : c
  · simpa [hc] using d.retreatBest_spec s p
  · simpa [hc] using (⟨rfl, rfl, rfl, rfl⟩ : SameButBest d d)

/-- A subtraction reads the best anew when its level goes, or keeps the depth up to date. -/
theorem subQty_spec (d : FlashCrashDetector) (s : Side) (p q : UInt64) :
    (∀ r, (d.subQty s.toU8 p q).cachedBest r =
      if r = s ∧ d.cachedBest s = some p ∧
          (d.levels s)[p]? = some (removed q (d.levels s)[p]?) then
        bestKey s ((d.subQty s.toU8 p q).levels s)
      else d.cachedBest r) ∧
    (d.subQty s.toU8 p q).depthBandTicks = d.depthBandTicks ∧
    ((d.subQty s.toU8 p q).bandDepthValid = true →
      d.bandDepthValid = true ∧
      ((d.levels s)[p]? = some (removed q (d.levels s)[p]?) → d.cachedBest s ≠ some p) ∧
      ∀ b, d.cachedBest s = some b →
        (0 < removed q (d.levels s)[p]? ∧ InBand d.depthBandTicks s b p →
          (d.subQty s.toU8 p q).bandDepth = satSub64 d.bandDepth (removed q (d.levels s)[p]?)) ∧
        (¬ (0 < removed q (d.levels s)[p]? ∧ InBand d.depthBandTicks s b p) →
          (d.subQty s.toU8 p q).bandDepth = d.bandDepth)) := by
  have hlevels : (d.subQty s.toU8 p q).levels s =
      (d.withBook (d.toMiniBook.subQty s.toU8 p q)).levels s :=
    congrArg (fun m => MiniBook.book m s.toU8) (subQty_book d s.toU8 p q)
  rw [hlevels, subQty_eq]
  generalize hd₁ : d.withBook (d.toMiniBook.subQty s.toU8 p q) = d₁
  have hcached (r : Side) : d₁.cachedBest r = d.cachedBest r := by rw [← hd₁, withBook_cachedBest]
  have hdepth : d₁.bandDepth = d.bandDepth := by rw [← hd₁]; rfl
  have hvalid : d₁.bandDepthValid = d.bandDepthValid := by rw [← hd₁]; rfl
  have hticks : d₁.depthBandTicks = d.depthBandTicks := by rw [← hd₁]; rfl
  dsimp only
  have ho : (d.toMiniBook.book s.toU8)[p]? = (d.levels s)[p]? := rfl
  rw [ho]
  generalize (d.levels s)[p]? = o
  obtain ⟨hsame, hbest, hstay⟩ := d₁.retreatIf_spec s p (o = some (removed q o))
  generalize (if o = some (removed q o) then d₁.retreatBest s.toU8 p else (d₁, false)) = r
    at hsame hbest hstay
  simp only [hcached] at hbest hstay
  obtain ⟨hcached', hticks', hdepth'⟩ := r.1.redepth_spec r.2
    (r.1.bandDepthValid && decide (0 < removed q o) && r.1.inBandSameSide s.toU8 p)
    (satSub64 r.1.bandDepth (removed q o))
  refine ⟨fun t => (hcached' t).trans (hbest t), hticks'.trans (hsame.ticks.trans hticks), ?_⟩
  intro hv
  obtain ⟨hmoved, hv', htouch, huntouch⟩ := hdepth' hv
  refine ⟨hvalid.symm.trans (hsame.valid.symm.trans hv'), hstay hmoved, ?_⟩
  intro b hb
  have hkept : r.1.cachedBest s = some b := by
    rw [hbest s, if_neg (fun h => hstay hmoved h.2.2 h.2.1), hb]
  have htouched : (r.1.bandDepthValid && decide (0 < removed q o) && r.1.inBandSameSide s.toU8 p) =
      decide (0 < removed q o ∧ InBand d.depthBandTicks s b p) := by
    rw [hv', Bool.true_and, inBandSameSide_eq, hkept, hsame.ticks, hticks, Bool.decide_and]
  constructor
  · intro h
    rw [htouch (htouched.trans (decide_eq_true h)), hsame.depth, hdepth]
  · intro h
    rw [huntouch (htouched.trans (decide_eq_false h)), hsame.depth, hdepth]

/-- A side that keeps its best and its levels keeps its depth. -/
theorem bandOf_congr {d d' : FlashCrashDetector} {s : Side} (hb : d'.cachedBest s = d.cachedBest s)
    (hl : d'.levels s = d.levels s) (ht : d'.depthBandTicks = d.depthBandTicks) :
    d'.bandOf s = d.bandOf s := by
  simp only [bandOf, hb, hl, ht]

theorem bandOf_eq {d : FlashCrashDetector} {s : Side} {b : UInt64} (h : d.cachedBest s = some b) :
    d.bandOf s = bandQty d.depthBandTicks s b (d.levels s) := by
  simp only [bandOf, h]

theorem bandOf_le (d : FlashCrashDetector) (s : Side) : d.bandOf s ≤ heldQty (d.levels s) := by
  simp only [bandOf]
  cases d.cachedBest s with
  | none => exact Nat.zero_le _
  | some b => exact bandQty_le d.depthBandTicks s b (d.levels s)

/-- The quantity of both sides. -/
def held (d : FlashCrashDetector) : Nat := heldQty (d.levels .bid) + heldQty (d.levels .ask)

theorem CachesHold.addQty {d : FlashCrashDetector} (h : d.CachesHold) (s : Side) (p q : UInt64)
    (hroom : d.held + q.toNat < 2 ^ 64) : (d.addQty s.toU8 p q).CachesHold := by
  obtain ⟨hbest, hticks, hdepth⟩ := d.addQty_spec s p q
  have hbook := addQty_book d s.toU8 p q
  have hfit : heldQty (d.levels s) + q.toNat < 2 ^ 64 := by
    rw [held] at hroom
    cases s <;> omega
  have hgrown : ((d.levels s).insert p ((d.levels s)[p]?.getD 0 + q)).size ≤ d.maxBookLevels + 1 := by
    have hsize := h.sizes s
    rw [ExtTreeMap.size_insert]
    split_ifs <;> omega
  have hcap : (d.addQty s.toU8 p q).maxBookLevels = d.maxBookLevels := by
    rw [hbook, MiniBook.addQty, MiniBook.setBook_cap]
  have hother {r : Side} (hr : r ≠ s) : (d.addQty s.toU8 p q).levels r = d.levels r := by
    rw [addQty_levels, if_neg hr]
  have hheld : heldQty ((d.addQty s.toU8 p q).levels s) ≤ heldQty (d.levels s) + q.toNat := by
    rw [addQty_levels, if_pos rfl, ← heldQty_more hfit p]
    exact heldQty_prune_le s hgrown
  refine ⟨hcap ▸ h.cap, ?_, ?_, ?_, ?_, ?_⟩
  · intro r
    rw [hbest, addQty_levels]
    split_ifs with hr
    · rw [hr, bestKey_prune h.cap hgrown, bestKey_insert, h.best]
    · exact h.best r
  · intro r
    rw [addQty_levels, hcap]
    split_ifs
    · exact size_prune hgrown
    · exact h.sizes r
  · rw [held] at hroom
    cases s with
    | bid =>
      rw [hother (r := .ask) (by simp)]
      omega
    | ask =>
      rw [hother (r := .bid) (by simp)]
      omega
  · have htracker : (d.addQty s.toU8 p q).orderTracker = d.orderTracker := by
      rw [hbook, MiniBook.addQty, MiniBook.setBook_tracker]
    exact htracker ▸ h.sided
  · intro hv hsome
    obtain ⟨hvalid, hkept, hsizes, hin, hout⟩ := hdepth hv
    -- Nothing was pruned, or the depth would have been dropped.
    have hwhole : (d.addQty s.toU8 p q).levels s =
        (d.levels s).insert p ((d.levels s)[p]?.getD 0 + q) := by
      rw [addQty_levels, if_pos rfl] at hsizes ⊢
      rcases pruneLevels_cases s hgrown with ⟨_, he⟩ | ⟨_, k, v, _, hk, he⟩
      · exact he
      · have herased := FiniteMap.size_erase_bound _ k v hk
        rw [he] at hsizes
        omega
    have hold := h.depth hvalid (fun r => by
      by_cases hr : r = s
      · rw [hr, hkept]
        simp
      · have hr' := hsome r
        rwa [hbest, if_neg hr] at hr')
    have hself : (d.addQty s.toU8 p q).bandOf s = d.bandOf s +
        if InBand d.depthBandTicks s (improved s p (d.cachedBest s)) p then q.toNat else 0 := by
      rw [bandOf_eq (by rw [hbest, if_pos rfl]), bandOf_eq hkept, hticks, hwhole, bandQty_more hfit]
    have hrest {r : Side} (hr : r ≠ s) : (d.addQty s.toU8 p q).bandOf r = d.bandOf r :=
      bandOf_congr (by rw [hbest, if_neg hr]) (hother hr) hticks
    have hsmall : d.bandDepth.toNat ≤ d.held := by
      have hbid := d.bandOf_le .bid
      have hask := d.bandOf_le .ask
      rw [hold, held]
      omega
    have hnew : (d.addQty s.toU8 p q).bandDepth.toNat = d.bandDepth.toNat +
        if InBand d.depthBandTicks s (improved s p (d.cachedBest s)) p then q.toNat else 0 := by
      split_ifs with hb
      · rw [hin hb, satAdd64_toNat]
        omega
      · rw [hout hb, Nat.add_zero]
    rw [hnew, hold]
    cases s with
    | bid =>
      rw [hself, hrest (r := .ask) (by simp)]
      omega
    | ask =>
      rw [hself, hrest (r := .bid) (by simp)]
      omega

theorem held_subQty_le (d : FlashCrashDetector) (s : Side) (p q : UInt64) :
    (d.subQty s.toU8 p q).held ≤ d.held := by
  have hless := heldQty_less (d.levels s) p q
  cases s with
  | bid =>
    rw [held, subQty_levels, subQty_levels, if_pos rfl, if_neg (by simp), held]
    omega
  | ask =>
    rw [held, subQty_levels, subQty_levels, if_pos rfl, if_neg (by simp), held]
    omega

/-- The best price of a side after a subtraction there. -/
theorem bestKey_subQty {d : FlashCrashDetector} {s : Side} (h : d.cachedBest s = bestKey s (d.levels s))
    (p q : UInt64) (hkept : (d.levels s)[p]? = some (removed q (d.levels s)[p]?) →
      d.cachedBest s ≠ some p) :
    bestKey s (FiniteMap.put (d.levels s) p (lessened q (d.levels s)[p]?)) = d.cachedBest s := by
  rw [h] at hkept ⊢
  cases ho : (d.levels s)[p]? with
  | none =>
    have hput := FiniteMap.put_self (d.levels s) p
    rw [ho] at hput
    rw [lessened, hput]
  | some v =>
    rw [ho] at hkept
    cases hl : lessened q (some v) with
    | none =>
      have hv := (lessened_eq_none_iff q v).mp hl
      exact bestKey_erase (hkept (congrArg some hv))
    | some w =>
      apply bestKey_congr
      intro k
      rw [FiniteMap.get_put]
      split_ifs with hk
      · rw [hk, ho]
        simp
      · rfl

theorem size_subQty_le (t : ExtTreeMap UInt64 UInt64) (p q : UInt64) :
    (FiniteMap.put t p (lessened q t[p]?)).size ≤ t.size := by
  cases ho : t[p]? with
  | none =>
    have hput := FiniteMap.put_self t p
    rw [ho] at hput
    rw [lessened, hput]
  | some v =>
    cases lessened q (some v) with
    | none =>
      have herased := FiniteMap.size_erase_bound t p v ho
      simp only [FiniteMap.put]
      omega
    | some w => exact (FiniteMap.size_insert_bound t p w ho).le

theorem CachesHold.subQty {d : FlashCrashDetector} (h : d.CachesHold) (s : Side) (p q : UInt64) :
    (d.subQty s.toU8 p q).CachesHold := by
  obtain ⟨hbest, hticks, hdepth⟩ := d.subQty_spec s p q
  have hbook := subQty_book d s.toU8 p q
  have hcap : (d.subQty s.toU8 p q).maxBookLevels = d.maxBookLevels := by
    rw [hbook, MiniBook.subQty_eq, MiniBook.setBook_cap]
  have hother {r : Side} (hr : r ≠ s) : (d.subQty s.toU8 p q).levels r = d.levels r := by
    rw [subQty_levels, if_neg hr]
  have hself : (d.subQty s.toU8 p q).levels s =
      FiniteMap.put (d.levels s) p (lessened q (d.levels s)[p]?) := by
    rw [subQty_levels, if_pos rfl]
  refine ⟨hcap ▸ h.cap, ?_, ?_, (d.held_subQty_le s p q).trans_lt h.fits, ?_, ?_⟩
  · intro r
    rw [hbest]
    by_cases hr : r = s
    · subst hr
      split_ifs with hgone
      · rfl
      · rw [hself, bestKey_subQty (h.best r) p q (fun hp hb => hgone ⟨rfl, hb, hp⟩)]
    · rw [if_neg (fun hgone => hr hgone.1), hother hr]
      exact h.best r
  · intro r
    rw [hcap]
    by_cases hr : r = s
    · subst hr
      rw [hself]
      exact (size_subQty_le _ p q).trans (h.sizes r)
    · rw [hother hr]
      exact h.sizes r
  · have htracker : (d.subQty s.toU8 p q).orderTracker = d.orderTracker := by
      rw [hbook, MiniBook.subQty_eq, MiniBook.setBook_tracker]
    exact htracker ▸ h.sided
  · intro hv hsome
    obtain ⟨hvalid, hstay, hcases⟩ := hdepth hv
    have hkept (r : Side) : (d.subQty s.toU8 p q).cachedBest r = d.cachedBest r := by
      rw [hbest, if_neg (fun hgone => hstay hgone.2.2 hgone.2.1)]
    have hold := h.depth hvalid (fun r => hkept r ▸ hsome r)
    obtain ⟨b, hb⟩ := Option.ne_none_iff_exists'.mp (hkept s ▸ hsome s)
    obtain ⟨hin, hout⟩ := hcases b hb
    have hlost : (d.subQty s.toU8 p q).bandOf s +
        (if InBand d.depthBandTicks s b p then (removed q (d.levels s)[p]?).toNat else 0) =
          d.bandOf s := by
      rw [bandOf_eq (by rw [hkept, hb]), bandOf_eq hb, hticks, hself, bandQty_less]
    have hrest {r : Side} (hr : r ≠ s) : (d.subQty s.toU8 p q).bandOf r = d.bandOf r :=
      bandOf_congr (hkept r) (hother hr) hticks
    have hnew : (d.subQty s.toU8 p q).bandDepth.toNat =
        d.bandDepth.toNat -
          if InBand d.depthBandTicks s b p then (removed q (d.levels s)[p]?).toNat else 0 := by
      by_cases htouch : 0 < removed q (d.levels s)[p]? ∧ InBand d.depthBandTicks s b p
      · rw [hin htouch, if_pos htouch.2, satSub64_toNat]
      · rw [hout htouch]
        split_ifs with hband
        · have hzero : (removed q (d.levels s)[p]?).toNat = 0 := by
            have hnot : ¬ 0 < removed q (d.levels s)[p]? := fun hpos => htouch ⟨hpos, hband⟩
            rw [UInt64.lt_iff_toNat_lt, UInt64.toNat_zero] at hnot
            omega
          omega
        · rfl
    rw [hnew, hold]
    cases s with
    | bid =>
      rw [hrest (r := .ask) (by simp)]
      omega
    | ask =>
      rw [hrest (r := .bid) (by simp)]
      omega

end FlashCrashDetector

end Flowlab.Chaos
