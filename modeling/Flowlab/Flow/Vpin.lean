import Flowlab.Core.Event

namespace Flowlab.Flow

open Flowlab.Core (Event EventType Side)

/-- Toxic flow from the imbalance of volume buckets. The running sum is an `f64` in the source; here it
and the quotient are exact. -/
structure VpinCalculator where
  bucketSize : UInt64
  numBuckets : Nat
  currentBuyVol : UInt64
  currentSellVol : UInt64
  currentBucketVol : UInt64
  /-- Volumes bought and sold, the oldest bucket first. -/
  buckets : List (UInt64 × UInt64)
  runningAbsDiff : ℚ
  deriving DecidableEq

/-- How far apart the two volumes of a bucket are. -/
def imbalance (b : UInt64 × UInt64) : ℚ := |(b.1.toNat : ℚ) - b.2.toNat|

namespace VpinCalculator

def new (bucketSize : UInt64) (numBuckets : Nat) : VpinCalculator where
  bucketSize := bucketSize
  numBuckets := numBuckets
  currentBuyVol := 0
  currentSellVol := 0
  currentBucketVol := 0
  buckets := []
  runningAbsDiff := 0

/-- The mean imbalance over the bucket size. -/
def calculate (v : VpinCalculator) : ℚ :=
  if v.buckets.isEmpty then 0
  else v.runningAbsDiff / (v.buckets.length * v.bucketSize.toNat)

def vpin (v : VpinCalculator) : ℚ := v.calculate

/-- A print is added to its side, or split evenly where its side is not known. -/
def accrue (v : VpinCalculator) (qty : UInt64) (aggressor : Int8) : VpinCalculator :=
  let v :=
    if aggressor = 1 then { v with currentBuyVol := v.currentBuyVol + qty }
    else if aggressor = -1 then { v with currentSellVol := v.currentSellVol + qty }
    else
      let half := qty / 2
      { v with
        currentBuyVol := v.currentBuyVol + half
        currentSellVol := v.currentSellVol + (qty - half) }
  { v with currentBucketVol := v.currentBucketVol + qty }

def evictOldest (v : VpinCalculator) : VpinCalculator :=
  if v.numBuckets ≤ v.buckets.length then
    match v.buckets with
    | old :: rest =>
      { v with buckets := rest, runningAbsDiff := v.runningAbsDiff - imbalance old }
    | [] => v
  else v

def closeBucket (v : VpinCalculator) : VpinCalculator :=
  let bucket := (v.currentBuyVol, v.currentSellVol)
  let newDiff := imbalance bucket
  let v := v.evictOldest
  { v with
    buckets := v.buckets ++ [bucket]
    runningAbsDiff := v.runningAbsDiff + newDiff
    currentBuyVol := 0
    currentSellVol := 0
    currentBucketVol := 0 }

def processSigned (v : VpinCalculator) (qty : UInt64) (aggressor : Int8) : VpinCalculator × Option ℚ :=
  if qty = 0 then (v, none)
  else
    let v := v.accrue qty aggressor
    if v.bucketSize ≤ v.currentBucketVol then
      let v := v.closeBucket
      (v, some v.calculate)
    else (v, none)

/-- The sign of a trade, by the raw side of its event. -/
def rawSign (ev : Event) : Option Int8 :=
  if EventType.fromU8 ev.eventType = some .trade then
    match Side.fromU8 ev.side with
    | some .bid => some 1
    | some .ask => some (-1)
    | none => none
  else none

def processTrade (v : VpinCalculator) (ev : Event) : VpinCalculator × Option ℚ :=
  match rawSign ev with
  | some signed => v.processSigned ev.qty signed
  | none => (v, none)

def processTradeSigned (v : VpinCalculator) (qty : UInt64) (aggressor : Int8) :
    VpinCalculator × Option ℚ :=
  v.processSigned qty aggressor

end VpinCalculator

/-- A call of the calculator. -/
inductive VpinOp where
  | processTrade (ev : Event)
  | processTradeSigned (qty : UInt64) (aggressor : Int8)
  | vpin

namespace VpinCalculator

/-- One call, with the value that it returns. -/
def step (v : VpinCalculator) : VpinOp → VpinCalculator × Option ℚ
  | .processTrade ev => v.processTrade ev
  | .processTradeSigned qty aggressor => v.processTradeSigned qty aggressor
  | .vpin => (v, some v.vpin)

/-- The values that some calls return. -/
def values (v : VpinCalculator) : List VpinOp → List ℚ
  | [] => []
  | op :: ops => (v.step op).2.toList ++ values (v.step op).1 ops

/-- The quantity and the sign of a trade, where a call brings one. -/
def tradeOf : VpinOp → Option (UInt64 × Int8)
  | .processTrade ev => (rawSign ev).map fun signed => (ev.qty, signed)
  | .processTradeSigned qty aggressor => some (qty, aggressor)
  | .vpin => none

/-- Every trade of some calls meets a condition in the state before it. -/
def EveryTrade (P : VpinCalculator → UInt64 → Int8 → Prop) (v : VpinCalculator) : List VpinOp → Prop
  | [] => True
  | op :: ops =>
    (∀ qty aggressor, tradeOf op = some (qty, aggressor) → P v qty aggressor) ∧
      EveryTrade P (v.step op).1 ops

/-- The volume of the bucket stays a 64-bit number. -/
def Fits (v : VpinCalculator) (qty : UInt64) (_ : Int8) : Prop :=
  v.currentBucketVol.toNat + qty.toNat < 2 ^ 64

/-- A buy or a sell that fills the bucket leaves its side at most a bucket above the other. -/
def Balanced (v : VpinCalculator) (qty : UInt64) (aggressor : Int8) : Prop :=
  v.bucketSize.toNat ≤ v.currentBucketVol.toNat + qty.toNat →
    (aggressor = 1 →
      v.currentBuyVol.toNat + qty.toNat ≤ v.bucketSize.toNat + v.currentSellVol.toNat) ∧
    (aggressor = -1 →
      v.currentSellVol.toNat + qty.toNat ≤ v.bucketSize.toNat + v.currentBuyVol.toNat)

/-- The cached sum is the sum over the buckets. -/
def Tallied (v : VpinCalculator) : Prop := v.runningAbsDiff = (v.buckets.map imbalance).sum

/-- The bucket being filled is not full, and holds what was bought and sold. -/
structure Filling (v : VpinCalculator) : Prop where
  volumes : v.currentBuyVol.toNat + v.currentSellVol.toNat = v.currentBucketVol.toNat
  below : v.currentBucketVol < v.bucketSize

/-- No bucket is further apart than its size. -/
def Capped (v : VpinCalculator) : Prop := ∀ b ∈ v.buckets, imbalance b ≤ v.bucketSize.toNat

theorem imbalance_nonneg (b : UInt64 × UInt64) : 0 ≤ imbalance b := abs_nonneg _

theorem Tallied.calculate_nonneg {v : VpinCalculator} (h : v.Tallied) : 0 ≤ v.calculate := by
  rw [calculate]
  split_ifs
  · exact le_refl 0
  · rw [h]
    have hsum : 0 ≤ (v.buckets.map imbalance).sum := by
      refine List.sum_nonneg fun x hx => ?_
      obtain ⟨b, -, rfl⟩ := List.mem_map.mp hx
      exact imbalance_nonneg b
    positivity

theorem Tallied.calculate_le_one {v : VpinCalculator} (h : v.Tallied) (hcap : v.Capped) :
    v.calculate ≤ 1 := by
  rw [calculate]
  split_ifs
  · exact zero_le_one
  · have hsum : (v.buckets.map imbalance).sum ≤ v.buckets.length * (v.bucketSize.toNat : ℚ) := by
      have hle := List.sum_le_card_nsmul (v.buckets.map imbalance) (v.bucketSize.toNat : ℚ) fun x hx => by
        obtain ⟨b, hb, rfl⟩ := List.mem_map.mp hx
        exact hcap b hb
      rwa [List.length_map, nsmul_eq_mul] at hle
    rw [h]
    exact div_le_one_of_le₀ hsum (by positivity)

theorem imbalance_le_iff (b : UInt64 × UInt64) (n : Nat) :
    imbalance b ≤ n ↔ b.1.toNat ≤ n + b.2.toNat ∧ b.2.toNat ≤ n + b.1.toNat := by
  rw [imbalance, abs_le]
  constructor
  · rintro ⟨hlow, hhigh⟩
    constructor
    · have hcast : ((b.1.toNat : ℕ) : ℚ) ≤ ((n + b.2.toNat : ℕ) : ℚ) := by
        push_cast
        linarith
      exact_mod_cast hcast
    · have hcast : ((b.2.toNat : ℕ) : ℚ) ≤ ((n + b.1.toNat : ℕ) : ℚ) := by
        push_cast
        linarith
      exact_mod_cast hcast
  · rintro ⟨hbuy, hsell⟩
    have hbuy' : (b.1.toNat : ℚ) ≤ n + b.2.toNat := by exact_mod_cast hbuy
    have hsell' : (b.2.toNat : ℚ) ≤ n + b.1.toNat := by exact_mod_cast hsell
    constructor <;> linarith

/-- What a trade makes of the two volumes. -/
theorem accrue_volumes {v : VpinCalculator} (h : v.Filling) {qty : UInt64} {aggressor : Int8}
    (hfits : v.Fits qty aggressor) :
    (v.accrue qty aggressor).currentBucketVol.toNat = v.currentBucketVol.toNat + qty.toNat ∧
      (v.accrue qty aggressor).currentBuyVol.toNat =
        v.currentBuyVol.toNat +
          (if aggressor = 1 then qty.toNat else if aggressor = -1 then 0 else qty.toNat / 2) ∧
      (v.accrue qty aggressor).currentSellVol.toNat =
        v.currentSellVol.toNat +
          (if aggressor = 1 then 0 else if aggressor = -1 then qty.toNat
            else qty.toNat - qty.toNat / 2) := by
  have hvol := h.volumes
  have hhalf : (qty / 2).toNat = qty.toNat / 2 := UInt64.toNat_div ..
  have hrest : (qty - qty / 2).toNat = qty.toNat - qty.toNat / 2 := by
    rw [UInt64.toNat_sub_of_le _ _ (UInt64.le_iff_toNat_le.mpr (by omega)), hhalf]
  rw [Fits] at hfits
  refine ⟨?_, ?_, ?_⟩
  · have hlast : (v.accrue qty aggressor).currentBucketVol = v.currentBucketVol + qty := by
      rw [accrue]
      split_ifs <;> rfl
    rw [hlast, UInt64.toNat_add, Nat.mod_eq_of_lt hfits]
  · rw [accrue]
    split_ifs
    · rw [UInt64.toNat_add, Nat.mod_eq_of_lt (by omega)]
    · rfl
    · rw [UInt64.toNat_add, hhalf, Nat.mod_eq_of_lt (by omega)]
  · rw [accrue]
    split_ifs
    · rfl
    · rw [UInt64.toNat_add, Nat.mod_eq_of_lt (by omega)]
    · rw [UInt64.toNat_add, hrest, Nat.mod_eq_of_lt (by omega)]

/-- A full bucket is at most its size apart just if the trade that fills it is balanced. -/
theorem imbalance_accrue_le_iff {v : VpinCalculator} (h : v.Filling) {qty : UInt64}
    {aggressor : Int8} (hfits : v.Fits qty aggressor)
    (hfull : v.bucketSize.toNat ≤ v.currentBucketVol.toNat + qty.toNat) :
    imbalance ((v.accrue qty aggressor).currentBuyVol, (v.accrue qty aggressor).currentSellVol) ≤
        v.bucketSize.toNat ↔
      v.Balanced qty aggressor := by
  obtain ⟨-, hbuy, hsell⟩ := accrue_volumes h hfits
  have hvol := h.volumes
  have hbelow := UInt64.lt_iff_toNat_lt.mp h.below
  rw [imbalance_le_iff, hbuy, hsell, Balanced, imp_iff_right hfull]
  by_cases hone : aggressor = 1
  · subst hone
    simp only [if_true, true_implies, show ¬ (1 : Int8) = -1 by decide, false_implies, and_true]
    omega
  · by_cases hminus : aggressor = -1
    · subst hminus
      simp only [show ¬ (-1 : Int8) = 1 by decide, if_false, if_true, true_implies, false_implies,
        true_and]
      omega
    · simp only [hone, hminus, if_false, false_implies, and_true, iff_true]
      omega

/-- A call reads, or does nothing, or brings a trade. -/
theorem step_cases (v : VpinCalculator) (op : VpinOp) :
    (tradeOf op = none ∧ (v.step op).1 = v ∧ ∀ x ∈ (v.step op).2, x = v.calculate) ∨
      ∃ qty aggressor, tradeOf op = some (qty, aggressor) ∧
        v.step op = v.processSigned qty aggressor := by
  cases op with
  | processTrade ev =>
    rw [tradeOf, step, processTrade]
    cases rawSign ev with
    | none => exact .inl ⟨rfl, rfl, by simp⟩
    | some signed => exact .inr ⟨ev.qty, signed, rfl, rfl⟩
  | processTradeSigned qty aggressor => exact .inr ⟨qty, aggressor, rfl, rfl⟩
  | vpin => exact .inl ⟨rfl, rfl, fun x hx => (Option.some.inj hx).symm⟩

/-- What stays as it is, and how the two sums go together. -/
theorem accrue_same (v : VpinCalculator) (qty : UInt64) (aggressor : Int8) :
    (v.accrue qty aggressor).bucketSize = v.bucketSize ∧
      (v.accrue qty aggressor).numBuckets = v.numBuckets ∧
      (v.accrue qty aggressor).buckets = v.buckets ∧
      (v.accrue qty aggressor).runningAbsDiff = v.runningAbsDiff := by
  rw [accrue]
  split_ifs <;> exact ⟨rfl, rfl, rfl, rfl⟩

theorem evictOldest_spec (v : VpinCalculator) :
    v.evictOldest.bucketSize = v.bucketSize ∧ v.evictOldest.numBuckets = v.numBuckets ∧
      v.evictOldest.buckets =
        (if v.numBuckets ≤ v.buckets.length then v.buckets.tail else v.buckets) ∧
      (v.Tallied → v.evictOldest.Tallied) := by
  rw [evictOldest]
  split_ifs with hfull
  · cases hbuckets : v.buckets with
    | nil => exact ⟨rfl, rfl, hbuckets, id⟩
    | cons old rest =>
      refine ⟨rfl, rfl, rfl, fun h => ?_⟩
      rw [Tallied, hbuckets, List.map_cons, List.sum_cons] at h
      show v.runningAbsDiff - imbalance old = (rest.map imbalance).sum
      rw [h, add_sub_cancel_left]
  · exact ⟨rfl, rfl, rfl, id⟩

theorem Tallied.closeBucket {v : VpinCalculator} (h : v.Tallied) : v.closeBucket.Tallied := by
  have hevict := v.evictOldest_spec.2.2.2 h
  show v.evictOldest.runningAbsDiff + imbalance (v.currentBuyVol, v.currentSellVol) =
    ((v.evictOldest.buckets ++ [(v.currentBuyVol, v.currentSellVol)]).map imbalance).sum
  rw [hevict, List.map_append, List.sum_append, List.map_singleton, List.sum_singleton]

/-- A trade without quantity does nothing; any other is added, and then the bucket is closed if it is
full. -/
theorem processSigned_cases (v : VpinCalculator) (qty : UInt64) (aggressor : Int8) :
    (qty = 0 ∧ v.processSigned qty aggressor = (v, none)) ∨
      (qty ≠ 0 ∧ ¬ v.bucketSize ≤ (v.accrue qty aggressor).currentBucketVol ∧
        v.processSigned qty aggressor = (v.accrue qty aggressor, none)) ∨
      (qty ≠ 0 ∧ v.bucketSize ≤ (v.accrue qty aggressor).currentBucketVol ∧
        v.processSigned qty aggressor =
          ((v.accrue qty aggressor).closeBucket, some (v.accrue qty aggressor).closeBucket.calculate)) := by
  have hsize := (v.accrue_same qty aggressor).1
  by_cases hqty : qty = 0
  · exact .inl ⟨hqty, if_pos hqty⟩
  · by_cases hfull : v.bucketSize ≤ (v.accrue qty aggressor).currentBucketVol
    · refine .inr (.inr ⟨hqty, hfull, ?_⟩)
      rw [processSigned, if_neg hqty]
      simp only [hsize, if_pos hfull]
    · refine .inr (.inl ⟨hqty, hfull, ?_⟩)
      rw [processSigned, if_neg hqty]
      simp only [hsize, if_neg hfull]

/-- What holds of the sums after any trade. -/
theorem processSigned_tallied {v : VpinCalculator} (h : v.Tallied) (qty : UInt64) (aggressor : Int8) :
    (v.processSigned qty aggressor).1.Tallied ∧
      (v.processSigned qty aggressor).1.bucketSize = v.bucketSize ∧
      (v.processSigned qty aggressor).1.numBuckets = v.numBuckets ∧
      ∀ x ∈ (v.processSigned qty aggressor).2, x = (v.processSigned qty aggressor).1.calculate := by
  obtain ⟨hsize, hnum, hbuckets, hsum⟩ := v.accrue_same qty aggressor
  have haccrue : (v.accrue qty aggressor).Tallied := by
    rw [Tallied, hsum, hbuckets]
    exact h
  obtain ⟨hsize', hnum', -, -⟩ := (v.accrue qty aggressor).evictOldest_spec
  rcases v.processSigned_cases qty aggressor with ⟨-, heq⟩ | ⟨-, -, heq⟩ | ⟨-, -, heq⟩ <;> rw [heq]
  · exact ⟨h, rfl, rfl, by simp⟩
  · exact ⟨haccrue, hsize, hnum, by simp⟩
  · exact ⟨haccrue.closeBucket, hsize'.trans hsize, hnum'.trans hnum,
      fun x hx => (Option.some.inj hx).symm⟩

theorem processSigned_filling {v : VpinCalculator} (h : v.Filling) {qty : UInt64} {aggressor : Int8}
    (hfits : v.Fits qty aggressor) : (v.processSigned qty aggressor).1.Filling := by
  have hsize := (v.accrue_same qty aggressor).1
  obtain ⟨hvol, hbuy, hsell⟩ := accrue_volumes h hfits
  have hbefore := h.volumes
  rcases v.processSigned_cases qty aggressor with ⟨-, heq⟩ | ⟨-, hopen, heq⟩ | ⟨-, -, heq⟩ <;> rw [heq]
  · exact h
  · refine ⟨?_, ?_⟩
    · show (v.accrue qty aggressor).currentBuyVol.toNat +
        (v.accrue qty aggressor).currentSellVol.toNat = (v.accrue qty aggressor).currentBucketVol.toNat
      rw [hbuy, hsell, hvol]
      split_ifs <;> omega
    · show (v.accrue qty aggressor).currentBucketVol < (v.accrue qty aggressor).bucketSize
      rw [hsize]
      exact UInt64.not_le.mp hopen
  · have hempty : (v.accrue qty aggressor).closeBucket.bucketSize = v.bucketSize :=
      (v.accrue qty aggressor).evictOldest_spec.1.trans hsize
    refine ⟨rfl, ?_⟩
    show (0 : UInt64) < (v.accrue qty aggressor).closeBucket.bucketSize
    rw [hempty, UInt64.lt_iff_toNat_lt]
    exact Nat.lt_of_le_of_lt (Nat.zero_le _) (UInt64.lt_iff_toNat_lt.mp h.below)

/-- The buckets after one is closed: the last ones there were, and the one just filled. -/
theorem closeBucket_buckets (v : VpinCalculator) (qty : UInt64) (aggressor : Int8) :
    (v.accrue qty aggressor).closeBucket.buckets =
      (if v.numBuckets ≤ v.buckets.length then v.buckets.tail else v.buckets) ++
        [((v.accrue qty aggressor).currentBuyVol, (v.accrue qty aggressor).currentSellVol)] := by
  obtain ⟨-, hnum, hbuckets, -⟩ := v.accrue_same qty aggressor
  have hevict := (v.accrue qty aggressor).evictOldest_spec.2.2.1
  rw [hnum, hbuckets] at hevict
  rw [← hevict]
  rfl

/-- The bucket that a trade closes, and with it all buckets, are capped when the trade is balanced. -/
theorem processSigned_capped {v : VpinCalculator} (h : v.Filling) (hcap : v.Capped) {qty : UInt64}
    {aggressor : Int8} (hfits : v.Fits qty aggressor) (hbal : v.Balanced qty aggressor) :
    (v.processSigned qty aggressor).1.Capped := by
  obtain ⟨hsize, -, hbuckets, -⟩ := v.accrue_same qty aggressor
  rcases v.processSigned_cases qty aggressor with ⟨-, heq⟩ | ⟨-, -, heq⟩ | ⟨-, hfull, heq⟩ <;> rw [heq]
  · exact hcap
  · intro b hb
    rw [hbuckets] at hb
    rw [hsize]
    exact hcap b hb
  · have hclosed : (v.accrue qty aggressor).closeBucket.bucketSize = v.bucketSize :=
      (v.accrue qty aggressor).evictOldest_spec.1.trans hsize
    rw [UInt64.le_iff_toNat_le, (accrue_volumes h hfits).1] at hfull
    intro b hb
    rw [closeBucket_buckets] at hb
    rw [hclosed]
    rcases List.mem_append.mp hb with hb | hb
    · refine hcap b ?_
      split_ifs at hb
      · exact List.mem_of_mem_tail hb
      · exact hb
    · rw [List.mem_singleton.mp hb]
      exact (imbalance_accrue_le_iff h hfits hfull).mpr hbal

theorem values_nonneg {v : VpinCalculator} (h : v.Tallied) (ops : List VpinOp) :
    ∀ x ∈ v.values ops, 0 ≤ x := by
  induction ops generalizing v with
  | nil => simp [values]
  | cons op ops ih =>
    intro x hx
    rw [values] at hx
    rcases v.step_cases op with ⟨-, hsame, hread⟩ | ⟨qty, aggressor, -, heq⟩
    · rcases List.mem_append.mp hx with hx | hx
      · rw [hread x (Option.mem_toList.mp hx)]
        exact h.calculate_nonneg
      · rw [hsame] at hx
        exact ih h x hx
    · obtain ⟨hnext, -, -, hread⟩ := processSigned_tallied h qty aggressor
      rw [heq] at hx
      rcases List.mem_append.mp hx with hx | hx
      · rw [hread x (Option.mem_toList.mp hx)]
        exact hnext.calculate_nonneg
      · exact ih hnext x hx

/-- Balanced trades keep every value at one or below. -/
theorem values_le_one {v : VpinCalculator} (h : v.Tallied) (hfill : v.Filling) (hcap : v.Capped)
    {ops : List VpinOp} (hfits : v.EveryTrade Fits ops) (hbal : v.EveryTrade Balanced ops) :
    ∀ x ∈ v.values ops, x ≤ 1 := by
  induction ops generalizing v with
  | nil => simp [values]
  | cons op ops ih =>
    intro x hx
    rw [values] at hx
    rcases v.step_cases op with ⟨-, hsame, hread⟩ | ⟨qty, aggressor, htrade, heq⟩
    · rcases List.mem_append.mp hx with hx | hx
      · rw [hread x (Option.mem_toList.mp hx)]
        exact h.calculate_le_one hcap
      · rw [EveryTrade, hsame] at hfits hbal
        rw [hsame] at hx
        exact ih h hfill hcap hfits.2 hbal.2 x hx
    · obtain ⟨hnext, -, -, hread⟩ := processSigned_tallied h qty aggressor
      rw [EveryTrade, heq] at hfits hbal
      have hfitsNow := hfits.1 qty aggressor htrade
      have hcapNext := processSigned_capped hfill hcap hfitsNow (hbal.1 qty aggressor htrade)
      rw [heq] at hx
      rcases List.mem_append.mp hx with hx | hx
      · rw [hread x (Option.mem_toList.mp hx)]
        exact hnext.calculate_le_one hcapNext
      · exact ih hnext (processSigned_filling hfill hfitsNow) hcapNext hfits.2 hbal.2 x hx

/-- With one bucket kept, closing one leaves it alone. -/
theorem closeBucket_single {v : VpinCalculator} (hnum : v.numBuckets ≤ 1) (hlen : v.buckets.length ≤ 1)
    (qty : UInt64) (aggressor : Int8) :
    (v.accrue qty aggressor).closeBucket.buckets =
      [((v.accrue qty aggressor).currentBuyVol, (v.accrue qty aggressor).currentSellVol)] := by
  have hkept : (if v.numBuckets ≤ v.buckets.length then v.buckets.tail else v.buckets) = [] := by
    split_ifs with hfull
    · exact List.length_eq_zero_iff.mp (by rw [List.length_tail]; omega)
    · exact List.length_eq_zero_iff.mp (by omega)
  rw [closeBucket_buckets, hkept, List.nil_append]

/-- With one bucket kept, a value of at most one says that the trade was balanced. -/
theorem balanced_of_value {v : VpinCalculator} (h : v.Tallied) (hfill : v.Filling)
    (hnum : v.numBuckets ≤ 1) (hlen : v.buckets.length ≤ 1) {qty : UInt64} {aggressor : Int8}
    (hfits : v.Fits qty aggressor) (hle : ∀ x ∈ (v.processSigned qty aggressor).2, x ≤ 1) :
    v.Balanced qty aggressor := by
  intro hfull
  have hvol := (accrue_volumes hfill hfits).1
  have hbelow := UInt64.lt_iff_toNat_lt.mp hfill.below
  obtain ⟨hnext, hsize, -, -⟩ := processSigned_tallied h qty aggressor
  rcases v.processSigned_cases qty aggressor with ⟨hzero, -⟩ | ⟨-, hopen, -⟩ | ⟨-, -, heq⟩
  · rw [hzero, UInt64.toNat_zero] at hfull
    omega
  · rw [UInt64.le_iff_toNat_le, hvol] at hopen
    exact absurd hfull hopen
  · rw [heq] at hle hnext hsize
    have hvalue := hle _ rfl
    have hbuckets := closeBucket_single hnum hlen qty aggressor
    have hpos : (0 : ℚ) < v.bucketSize.toNat := by
      exact_mod_cast Nat.lt_of_le_of_lt (Nat.zero_le _) hbelow
    have hsum : (v.accrue qty aggressor).closeBucket.runningAbsDiff =
        imbalance ((v.accrue qty aggressor).currentBuyVol, (v.accrue qty aggressor).currentSellVol) := by
      have htally : (v.accrue qty aggressor).closeBucket.Tallied := hnext
      rw [Tallied, hbuckets, List.map_singleton, List.sum_singleton] at htally
      exact htally
    have hclosed : (v.accrue qty aggressor).closeBucket.bucketSize = v.bucketSize := hsize
    rw [calculate, hbuckets, hsum, hclosed] at hvalue
    simp only [List.isEmpty_cons, Bool.false_eq_true, if_false, List.length_singleton, Nat.cast_one,
      one_mul] at hvalue
    exact (imbalance_accrue_le_iff hfill hfits hfull).mp ((div_le_one₀ hpos).mp hvalue) hfull

/-- No more buckets are kept than there is room for, and one even where there is none. -/
theorem processSigned_length {v : VpinCalculator} {n : ℕ} (hpos : 0 < n) (hnum : v.numBuckets ≤ n)
    (hlen : v.buckets.length ≤ n) (qty : UInt64) (aggressor : Int8) :
    (v.processSigned qty aggressor).1.buckets.length ≤ n := by
  have hbuckets := (v.accrue_same qty aggressor).2.2.1
  rcases v.processSigned_cases qty aggressor with ⟨-, heq⟩ | ⟨-, -, heq⟩ | ⟨-, -, heq⟩ <;> rw [heq]
  · exact hlen
  · rw [hbuckets]
    exact hlen
  · rw [closeBucket_buckets, List.length_append, List.length_singleton]
    split_ifs
    · rw [List.length_tail]
      omega
    · omega

theorem balanced_of_values {v : VpinCalculator} (h : v.Tallied) (hfill : v.Filling)
    (hnum : v.numBuckets ≤ 1) (hlen : v.buckets.length ≤ 1) {ops : List VpinOp}
    (hfits : v.EveryTrade Fits ops) (hle : ∀ x ∈ v.values ops, x ≤ 1) :
    v.EveryTrade Balanced ops := by
  induction ops generalizing v with
  | nil => exact trivial
  | cons op ops ih =>
    rw [values] at hle
    have hleNow : ∀ x ∈ (v.step op).2, x ≤ 1 := fun x hx =>
      hle x (List.mem_append_left _ (Option.mem_toList.mpr hx))
    have hleRest : ∀ x ∈ (v.step op).1.values ops, x ≤ 1 := fun x hx =>
      hle x (List.mem_append_right _ hx)
    rw [EveryTrade] at hfits ⊢
    rcases v.step_cases op with ⟨hnone, hsame, -⟩ | ⟨qty, aggressor, htrade, heq⟩
    · rw [hsame] at hfits hleRest ⊢
      exact ⟨fun qty aggressor htrade => by simp [hnone] at htrade,
        ih h hfill hnum hlen hfits.2 hleRest⟩
    · have hfitsNow := hfits.1 qty aggressor htrade
      obtain ⟨hnext, -, hnumNext, -⟩ := processSigned_tallied h qty aggressor
      rw [heq] at hfits hleNow hleRest ⊢
      refine ⟨fun qty' aggressor' htrade' => ?_, ih hnext (processSigned_filling hfill hfitsNow)
        (hnumNext ▸ hnum) (processSigned_length Nat.one_pos hnum hlen qty aggressor) hfits.2 hleRest⟩
      obtain ⟨rfl, rfl⟩ := Prod.mk.inj (Option.some.inj (htrade.symm.trans htrade'))
      exact balanced_of_value h hfill hnum hlen hfitsNow hleNow

end VpinCalculator

/-- No value is negative; none is above one where every trade that fills a bucket is balanced and no
volume overflows, and with a single bucket kept only there. -/
theorem vpin_unit_interval {bucketSize : UInt64} (hsize : 1 ≤ bucketSize) (numBuckets : Nat)
    (ops : List VpinOp) :
    (∀ x ∈ (VpinCalculator.new bucketSize numBuckets).values ops, 0 ≤ x) ∧
      ((VpinCalculator.new bucketSize numBuckets).EveryTrade VpinCalculator.Fits ops →
        (VpinCalculator.new bucketSize numBuckets).EveryTrade VpinCalculator.Balanced ops →
        ∀ x ∈ (VpinCalculator.new bucketSize numBuckets).values ops, x ≤ 1) ∧
      (numBuckets = 1 →
        (VpinCalculator.new bucketSize numBuckets).EveryTrade VpinCalculator.Fits ops →
        ((∀ x ∈ (VpinCalculator.new bucketSize numBuckets).values ops, x ≤ 1) ↔
          (VpinCalculator.new bucketSize numBuckets).EveryTrade VpinCalculator.Balanced ops)) := by
  have htally : (VpinCalculator.new bucketSize numBuckets).Tallied := rfl
  have hfill : (VpinCalculator.new bucketSize numBuckets).Filling :=
    ⟨rfl, UInt64.lt_iff_toNat_lt.mpr (UInt64.le_iff_toNat_le.mp hsize)⟩
  have hcap : (VpinCalculator.new bucketSize numBuckets).Capped := fun b hb => by
    exact absurd hb (List.not_mem_nil)
  refine ⟨VpinCalculator.values_nonneg htally ops,
    fun hfits hbal => VpinCalculator.values_le_one htally hfill hcap hfits hbal,
    fun hone hfits => ⟨fun hle => ?_, fun hbal =>
      VpinCalculator.values_le_one htally hfill hcap hfits hbal⟩⟩
  exact VpinCalculator.balanced_of_values htally hfill (Nat.le_of_eq hone) (Nat.zero_le 1) hfits hle

theorem vpin_unit_interval_two :
    (VpinCalculator.new 10 2).values [.processTradeSigned 7 1, .processTradeSigned 5 (-1)] = [1 / 5] ∧
      (0 : ℚ) ≤ 1 / 5 ∧ (1 / 5 : ℚ) ≤ 1 := by
  obtain ⟨hnonneg, hle, -⟩ := vpin_unit_interval (show (1 : UInt64) ≤ 10 by decide) 2
    [.processTradeSigned 7 1, .processTradeSigned 5 (-1)]
  have hfits : (VpinCalculator.new 10 2).EveryTrade VpinCalculator.Fits
      [.processTradeSigned 7 1, .processTradeSigned 5 (-1)] := by
    refine ⟨?_, ?_, trivial⟩ <;>
    · rintro qty aggressor ⟨⟩
      show _ < _
      decide
  have hbal : (VpinCalculator.new 10 2).EveryTrade VpinCalculator.Balanced
      [.processTradeSigned 7 1, .processTradeSigned 5 (-1)] := by
    refine ⟨?_, ?_, trivial⟩ <;>
    · rintro qty aggressor ⟨⟩
      show _ → _ ∧ _
      decide
  have hvalues : (VpinCalculator.new 10 2).values
      [.processTradeSigned 7 1, .processTradeSigned 5 (-1)] = [1 / 5] := by decide +kernel
  have hmem : (1 / 5 : ℚ) ∈ (VpinCalculator.new 10 2).values
      [.processTradeSigned 7 1, .processTradeSigned 5 (-1)] := by
    rw [hvalues]
    exact List.mem_singleton_self _
  exact ⟨hvalues, hnonneg _ hmem, hle hfits hbal _ hmem⟩

/-- One buy of ten fills a bucket of one. -/
theorem vpin_above_one :
    ¬ ∀ (bucketSize : UInt64) (numBuckets : Nat) (ops : List VpinOp), 1 ≤ bucketSize →
      1 ≤ numBuckets → ∀ x ∈ (VpinCalculator.new bucketSize numBuckets).values ops, 0 ≤ x ∧ x ≤ 1 := by
  intro h
  have hvalues : (VpinCalculator.new 1 1).values [.processTradeSigned 10 1] = [10] := by
    decide +kernel
  have hle := (h 1 1 [.processTradeSigned 10 1] (by decide) (by decide) 10 (by rw [hvalues]; simp)).2
  exact absurd hle (by norm_num)

end Flowlab.Flow
