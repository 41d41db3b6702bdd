import Flowlab.Core.Touch
import Flowlab.Flow.Vpin
import Flowlab.Framework.Recent

namespace Flowlab.Flow

open Framework
open Flowlab.Core (HotOrderBook toNat_sum)

/-- The spreads of the last `window` books that had one, the oldest first, with their sum. -/
structure SpreadTracker where
  history : List UInt64
  window : ℕ
  runningSum : UInt64
  deriving DecidableEq

structure SpreadMetrics where
  current : UInt64
  mean : Float
  blowoutRatio : Float

namespace SpreadTracker

def new (window : ℕ) : SpreadTracker := ⟨[], window, 0⟩

/-- `pop_front` where the window is full, with `unwrap_or(0)`. -/
def evict (t : SpreadTracker) : SpreadTracker :=
  if t.window ≤ t.history.length then
    { t with history := t.history.tail, runningSum := t.runningSum - t.history.headD 0 }
  else t

def push (t : SpreadTracker) (spread : UInt64) : SpreadTracker :=
  let t := t.evict
  { t with history := t.history ++ [spread], runningSum := t.runningSum + spread }

def metrics (t : SpreadTracker) (spread : UInt64) : SpreadMetrics :=
  let mean := t.runningSum.toFloat / t.history.length.toFloat
  ⟨spread, mean, if mean > 0.0 then spread.toFloat / mean else 1.0⟩

def record {M : ℕ} (t : SpreadTracker) (book : HotOrderBook M) :
    SpreadTracker × Option SpreadMetrics :=
  match book.spread with
  | none => (t, none)
  | some spread => (t.push spread, some ((t.push spread).metrics spread))

/-- `push` as it is built with overflow checks: a sum below zero or above a word panics. -/
def pushChecked (t : SpreadTracker) (spread : UInt64) : Option SpreadTracker :=
  if t.window ≤ t.history.length ∧ t.runningSum < t.history.headD 0 then none
  else if t.evict.runningSum.toNat + spread.toNat < 2 ^ 64 then some (t.push spread)
  else none

/-- Room for the newest alone where the window is empty. -/
def room (t : SpreadTracker) : ℕ := max t.window 1

/-- The sum is that of the history, in `u64` arithmetic. -/
structure Sound (t : SpreadTracker) : Prop where
  length : t.history.length ≤ t.room
  sum : t.runningSum = t.history.sum

theorem sound_new (window : ℕ) : (new window).Sound := ⟨Nat.zero_le _, rfl⟩

theorem evict_window (t : SpreadTracker) : t.evict.window = t.window := by
  rw [evict]
  split_ifs <;> rfl

theorem Sound.evict {t : SpreadTracker} (h : t.Sound) : t.evict.Sound := by
  rw [SpreadTracker.evict]
  split_ifs
  · have hlen := h.length
    refine ⟨?_, ?_⟩
    · show t.history.tail.length ≤ t.room
      rw [List.length_tail]
      omega
    · show t.runningSum - t.history.headD 0 = t.history.tail.sum
      rw [h.sum]
      cases t.history with
      | nil => rfl
      | cons x l =>
        rw [List.sum_cons, List.headD_cons, List.tail_cons, UInt64.add_comm, UInt64.add_sub_cancel]
  · exact h

theorem evict_history {t : SpreadTracker} (h : t.Sound) (spread : UInt64) :
    t.evict.history ++ [spread] = (t.history ++ [spread]).rtake t.room := by
  have hlen := h.length
  rw [← Recent.evict_concat (by rw [room]; omega) h.length, evict]
  rcases Nat.eq_zero_or_pos t.window with hzero | hpos
  · -- An empty window gives up what it has, if anything.
    have hroom : t.room = 1 := by rw [room, hzero]; rfl
    rw [if_pos (by omega), hroom]
    cases hh : t.history with
    | nil => rfl
    | cons x l => rw [if_pos (by simp)]
  · have hroom : t.room = t.window := Nat.max_eq_left hpos
    rw [hroom]
    split_ifs <;> rfl

theorem Sound.push {t : SpreadTracker} (h : t.Sound) (spread : UInt64) :
    (t.push spread).Sound ∧ (t.push spread).window = t.window ∧
      (t.push spread).history = (t.history ++ [spread]).rtake t.room := by
  have hwindow := t.evict_window
  refine ⟨⟨?_, ?_⟩, hwindow, evict_history h spread⟩
  · show (t.evict.history ++ [spread]).length ≤ max t.evict.window 1
    rw [evict_history h, hwindow, List.rtake, List.length_drop]
    show _ - (_ - t.room) ≤ t.room
    omega
  · show t.evict.runningSum + spread = (t.evict.history ++ [spread]).sum
    rw [h.evict.sum, List.sum_append, List.sum_singleton]

/-- Whatever is recorded, the history is the newest of it. -/
theorem run_spec (window : ℕ) (spreads : List UInt64) :
    (spreads.foldl push (new window)).Sound ∧
      (spreads.foldl push (new window)).window = window ∧
      (spreads.foldl push (new window)).history = spreads.rtake (max window 1) := by
  induction spreads using List.reverseRecOn with
  | nil => exact ⟨sound_new window, rfl, (List.rtake_nil _).symm⟩
  | append_singleton spreads spread ih =>
    obtain ⟨hsound, hwindow, hhistory⟩ := ih
    obtain ⟨hsound', hwindow', hhistory'⟩ := hsound.push spread
    rw [List.foldl_append, List.foldl_cons, List.foldl_nil]
    refine ⟨hsound', hwindow'.trans hwindow, ?_⟩
    rw [hhistory', hhistory, room, hwindow, Recent.rtake_concat (by omega)]

/-- A sum that fits a word is exact, and covers the oldest spread. -/
theorem Sound.exact {t : SpreadTracker} (h : t.Sound)
    (hfits : (t.history.map UInt64.toNat).sum < 2 ^ 64) :
    t.runningSum.toNat = (t.history.map UInt64.toNat).sum ∧ t.history.headD 0 ≤ t.runningSum := by
  have hsum : t.runningSum.toNat = (t.history.map UInt64.toNat).sum := by
    rw [h.sum, toNat_sum, Nat.mod_eq_of_lt hfits]
  refine ⟨hsum, UInt64.le_iff_toNat_le.mpr ?_⟩
  rw [hsum]
  cases t.history with
  | nil => exact Nat.zero_le _
  | cons x l => exact Nat.le_add_right _ _

/-- The spreads that the books bring, each book with a depth of its own. -/
def spreadsOf (books : List ((M : ℕ) × HotOrderBook M)) : List UInt64 :=
  books.filterMap fun b => b.2.spread

theorem record_run (t : SpreadTracker) (books : List ((M : ℕ) × HotOrderBook M)) :
    books.foldl (fun t b => (t.record b.2).1) t = (spreadsOf books).foldl push t := by
  induction books generalizing t with
  | nil => rfl
  | cons b books ih =>
    rw [List.foldl_cons, ih, spreadsOf, spreadsOf, List.filterMap_cons, record]
    cases b.2.spread <;> rfl

/-- While the sums fit, a build with overflow checks does the same and never panics. -/
theorem pushChecked_run (window : ℕ) (spreads : List UInt64)
    (hfits : ∀ pre, pre <+: spreads →
      ((pre.rtake (max window 1)).map UInt64.toNat).sum < 2 ^ 64) :
    spreads.foldlM pushChecked (new window) = some (spreads.foldl push (new window)) := by
  induction spreads using List.reverseRecOn with
  | nil => rfl
  | append_singleton spreads spread ih =>
    have hbefore := ih fun pre hpre => hfits pre (hpre.trans (List.prefix_append _ _))
    obtain ⟨hsound, hwindow, hhistory⟩ := run_spec window spreads
    have hnow := hfits spreads (List.prefix_append _ _)
    have hnext := hfits (spreads ++ [spread]) (List.prefix_refl _)
    rw [← Recent.rtake_concat (by omega), ← hhistory] at hnext
    rw [← hhistory] at hnow
    have hkept := evict_history hsound spread
    rw [room, hwindow] at hkept
    rw [← hkept, List.map_append, List.sum_append, List.map_singleton, List.sum_singleton] at hnext
    have hadd : (spreads.foldl push (new window)).evict.runningSum.toNat + spread.toNat < 2 ^ 64 := by
      rw [(hsound.evict.exact (by omega)).1]
      exact hnext
    have hsub : ¬ (spreads.foldl push (new window)).runningSum <
        (spreads.foldl push (new window)).history.headD 0 :=
      UInt64.not_lt.mpr (hsound.exact hnow).2
    rw [List.foldlM_append, hbefore, List.foldl_append]
    show (pushChecked _ spread >>= fun t => pure t) = _
    rw [pushChecked, if_neg fun h => hsub h.2, if_pos hadd]
    rfl

end SpreadTracker

namespace VpinCalculator

theorem run_spec (bucketSize : UInt64) (numBuckets : ℕ) (ops : List VpinOp) :
    let v := ops.foldl (fun v op => (v.step op).1) (new bucketSize numBuckets)
    v.Tallied ∧ v.numBuckets = numBuckets ∧ v.buckets.length ≤ max numBuckets 1 := by
  induction ops using List.reverseRecOn with
  | nil => exact ⟨rfl, rfl, Nat.zero_le _⟩
  | append_singleton ops op ih =>
    obtain ⟨htally, hnum, hlen⟩ := ih
    rw [List.foldl_append, List.foldl_cons, List.foldl_nil]
    rcases step_cases (ops.foldl (fun v op => (v.step op).1) (new bucketSize numBuckets)) op with
      ⟨-, hsame, -⟩ | ⟨qty, aggressor, -, heq⟩
    · rw [hsame]
      exact ⟨htally, hnum, hlen⟩
    · rw [heq]
      obtain ⟨htally', -, hnum', -⟩ := processSigned_tallied htally qty aggressor
      exact ⟨htally', hnum'.trans hnum,
        processSigned_length (by omega) (hnum.trans_le (by omega)) hlen qty aggressor⟩

/-- The running sum covers the bucket that goes next. -/
theorem Tallied.covers {v : VpinCalculator} (h : v.Tallied) {b : UInt64 × UInt64}
    (hb : b ∈ v.buckets) : imbalance b ≤ v.runningAbsDiff := by
  rw [h]
  refine List.single_le_sum ?_ _ (List.mem_map_of_mem hb)
  intro x hx
  obtain ⟨b, -, rfl⟩ := List.mem_map.mp hx
  exact imbalance_nonneg b

end VpinCalculator

/-- Neither sum drifts from what is kept, and no eviction takes a sum below zero: while the sums fit a
word, a build with overflow checks never panics. -/
theorem rolling_sums_exact :
    (∀ (window : ℕ) (books : List ((M : ℕ) × HotOrderBook M)),
      let t := books.foldl (fun t b => (t.record b.2).1) (SpreadTracker.new window)
      let spreads := SpreadTracker.spreadsOf books
      t.history = spreads.rtake (min spreads.length (max window 1)) ∧
        ((t.history.map UInt64.toNat).sum < 2 ^ 64 →
          t.runningSum.toNat = (t.history.map UInt64.toNat).sum ∧
            t.history.headD 0 ≤ t.runningSum) ∧
        ((∀ pre, pre <+: spreads →
            ((pre.rtake (max window 1)).map UInt64.toNat).sum < 2 ^ 64) →
          spreads.foldlM SpreadTracker.pushChecked (SpreadTracker.new window) = some t)) ∧
    ∀ (bucketSize : UInt64) (numBuckets : ℕ) (ops : List VpinOp),
      let v := ops.foldl (fun v op => (v.step op).1) (VpinCalculator.new bucketSize numBuckets)
      v.runningAbsDiff = ((v.buckets.map fun b => |(b.1.toNat : ℤ) - b.2.toNat|).sum : ℤ) ∧
        v.buckets.length ≤ max numBuckets 1 ∧
        ∀ old ∈ v.buckets.head?, imbalance old ≤ v.runningAbsDiff := by
  refine ⟨fun window books => ?_, fun bucketSize numBuckets ops => ?_⟩
  · intro t spreads
    obtain ⟨hsound, -, hhistory⟩ := SpreadTracker.run_spec window spreads
    have ht : t = spreads.foldl SpreadTracker.push (SpreadTracker.new window) :=
      SpreadTracker.record_run _ books
    rw [← ht] at hsound hhistory
    refine ⟨?_, hsound.exact, ?_⟩
    · rw [hhistory, Nat.min_comm, Recent.rtake_min]
    · intro hfits
      rw [SpreadTracker.pushChecked_run window spreads hfits, ht]
  · intro v
    obtain ⟨htally, -, hlen⟩ := VpinCalculator.run_spec bucketSize numBuckets ops
    refine ⟨?_, hlen, fun old hold => htally.covers (List.mem_of_mem_head? hold)⟩
    have hcast : v.buckets.map imbalance =
        (v.buckets.map fun b => |(b.1.toNat : ℤ) - b.2.toNat|).map (Int.cast : ℤ → ℚ) := by
      rw [List.map_map]
      refine List.map_congr_left fun b _ => ?_
      simp [imbalance]
    rw [Int.cast_list_sum, ← hcast]
    exact htally

/-- Three books, the first of them out of the window again. -/
theorem rolling_sums_exact_three :
    let book (ask : UInt64) : (M : ℕ) × HotOrderBook M :=
      ⟨1, ⟨0, ⟨#v[⟨100, 5, 1⟩], 1⟩, ⟨#v[⟨ask, 5, 1⟩], 1⟩, .empty⟩⟩
    let t := [book 103, book 105, book 109].foldl (fun t b => (t.record b.2).1) (SpreadTracker.new 2)
    t.history = [5, 9] ∧ t.runningSum.toNat = 14 ∧ (5 : UInt64) ≤ t.runningSum := by
  intro book
  have hspreads : SpreadTracker.spreadsOf [book 103, book 105, book 109] = [3, 5, 9] := by
    revert book
    exact rfl
  intro t
  obtain ⟨hhistory, hsum, -⟩ := rolling_sums_exact.1 2 [book 103, book 105, book 109]
  rw [hspreads] at hhistory
  have hwindow : t.history = [5, 9] := hhistory
  have hfits : (t.history.map UInt64.toNat).sum < 2 ^ 64 := by
    rw [hwindow]
    decide
  obtain ⟨hexact, hcovers⟩ := hsum hfits
  refine ⟨hwindow, ?_, ?_⟩
  · exact hexact.trans (congrArg (fun l => (List.map UInt64.toNat l).sum) hwindow)
  · exact (congrArg (fun l => List.headD l 0) hwindow).symm.trans_le hcovers

end Flowlab.Flow
