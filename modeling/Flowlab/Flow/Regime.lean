import Flowlab.Chaos.StressWindow
import Flowlab.Framework.RoundingOrder

namespace Flowlab.Flow

open Flowlab.Chaos (Regime)
open Framework.Rounding

structure RegimeInput where
  spreadBlowoutRatio : Fp
  bookImbalance : Fp
  vpin : Fp
  tradeVelocityRatio : Fp
  depthDepletion : Fp
  midDriftBps : Fp
  eventsPerSec : UInt64
  bookCrossed : Bool

structure RegimeClassifier where
  volatileThreshold : Fp
  aggressiveThreshold : Fp
  crisisThreshold : Fp

namespace RegimeInput

/-- Nothing under a crossed book. -/
def spreadScore (input : RegimeInput) : Fp :=
  if input.bookCrossed then .fin 0
  else .max (.sub input.spreadBlowoutRatio (.fin 1)) (.fin 0)

def imbalanceScore (input : RegimeInput) : Fp :=
  if input.bookCrossed then .fin 0 else .mul (.abs input.bookImbalance) (.fin 3)

def velocityScore (input : RegimeInput) : Fp :=
  .mul (.abs (.sub input.tradeVelocityRatio (.fin 1))) (.ofRat (3 / 5))

def freshness (input : RegimeInput) : Fp :=
  if input.eventsPerSec = 0 then .fin 1
  else .min (.div (.ofU64 input.eventsPerSec) (.fin 30)) (.fin 1)

/-- `composite_score`. -/
def compositeScore (input : RegimeInput) : Fp :=
  let vpinScore := Fp.mul input.vpin (.fin 5)
  let driftScore := Fp.mul input.midDriftBps (.ofRat (3 / 10))
  let depthScore := Fp.mul input.depthDepletion (.fin 3)
  let raw := Fp.add (.add (.add (.add (.add input.spreadScore input.imbalanceScore) vpinScore)
    input.velocityScore) driftScore) depthScore
  .mul raw input.freshness

end RegimeInput

namespace RegimeClassifier

def default : RegimeClassifier := ⟨.ofRat (3 / 5), .ofRat (3 / 2), .ofRat 3⟩

def classify (c : RegimeClassifier) (input : RegimeInput) : Regime :=
  let score := input.compositeScore
  if Fp.le c.crisisThreshold score then .crisis
  else if Fp.le c.aggressiveThreshold score then .aggressive
  else if Fp.le c.volatileThreshold score then .volatile
  else .calm

end RegimeClassifier

namespace RegimeInput

/-- `b` shows at least the stress that `a` shows: it is crossed only where `a` is, none of the
readings that count is smaller or a NaN, the trade velocity is as far from 1 on the same side, and
the tape is as fresh. -/
structure Calmer (a b : RegimeInput) : Prop where
  crossed : b.bookCrossed = true → a.bookCrossed = true
  spread : a.bookCrossed = false → Fp.le a.spreadBlowoutRatio b.spreadBlowoutRatio
  imbalance : b.bookCrossed = false →
    Fp.le (if a.bookCrossed then .fin 0 else .abs a.bookImbalance) (.abs b.bookImbalance)
  vpin : a.vpin.Nonneg ∧ Fp.le a.vpin b.vpin
  velocity :
    Fp.le (.fin 1) a.tradeVelocityRatio ∧ Fp.le a.tradeVelocityRatio b.tradeVelocityRatio ∨
    Fp.le b.tradeVelocityRatio a.tradeVelocityRatio ∧ Fp.le a.tradeVelocityRatio (.fin 1)
  drift : a.midDriftBps.Nonneg ∧ Fp.le a.midDriftBps b.midDriftBps
  depth : a.depthDepletion.Nonneg ∧ Fp.le a.depthDepletion b.depthDepletion
  fresh : b.eventsPerSec = 0 ∨ a.eventsPerSec ≠ 0 ∧ a.eventsPerSec ≤ b.eventsPerSec

/-- A part of the score that is not negative and no smaller in the second input. -/
def Grows (part : RegimeInput → Fp) (a b : RegimeInput) : Prop :=
  (part a).Nonneg ∧ Fp.le (part a) (part b)

variable {a b : RegimeInput}

theorem Calmer.spreadScore (h : Calmer a b) : Grows RegimeInput.spreadScore a b := by
  have hb : Fp.le (.fin 0) b.spreadScore := by
    rw [RegimeInput.spreadScore]
    split_ifs
    · exact Fp.le_fin.mpr le_rfl
    · exact Fp.le_max _ 0
  cases ha : a.bookCrossed with
  | true =>
    have hzero : a.spreadScore = .fin 0 := by rw [RegimeInput.spreadScore, ha, if_pos rfl]
    rw [Grows, hzero]
    exact ⟨Fp.le_fin.mpr le_rfl, hb⟩
  | false =>
    have hnot : b.bookCrossed = false := by
      cases hc : b.bookCrossed with
      | true => exact absurd (h.crossed hc) (by simp [ha])
      | false => rfl
    simp only [Grows, RegimeInput.spreadScore, ha, hnot, Bool.false_eq_true, if_false]
    exact ⟨Fp.le_max _ 0, Fp.max_mono (Fp.sub_mono (h.spread ha))⟩

theorem Grows.mul {part : RegimeInput → Fp} (h : Grows part a b) {w : ℚ} (hw : 0 < w) :
    Grows (fun input => .mul (part input) (.fin w)) a b :=
  ⟨h.1.mul hw, h.1.mul_mono h.2 hw le_rfl⟩

theorem Grows.add {part part' : RegimeInput → Fp} (h : Grows part a b) (h' : Grows part' a b) :
    Grows (fun input => .add (part input) (part' input)) a b :=
  ⟨h.1.add h'.1, h.1.add_mono h'.1 h.2 h'.2⟩

theorem Calmer.imbalanceScore (h : Calmer a b) : Grows RegimeInput.imbalanceScore a b := by
  cases hb : b.bookCrossed with
  | true =>
    have ha := h.crossed hb
    simp only [Grows, RegimeInput.imbalanceScore, ha, hb, if_true]
    exact ⟨Fp.le_fin.mpr le_rfl, Fp.le_fin.mpr le_rfl⟩
  | false =>
    have himb := h.imbalance hb
    cases ha : a.bookCrossed with
    | true =>
      rw [ha, if_pos rfl] at himb
      simp only [Grows, RegimeInput.imbalanceScore, ha, hb, if_true, Bool.false_eq_true, if_false]
      exact ⟨Fp.le_fin.mpr le_rfl, Fp.Nonneg.mul himb (by norm_num)⟩
    | false =>
      rw [ha, if_neg (by simp)] at himb
      have habs : a.bookImbalance.abs.Nonneg := by
        refine Fp.nonneg_abs ?_
        intro hnan
        rw [hnan] at himb
        cases himb
      simp only [Grows, RegimeInput.imbalanceScore, ha, hb, Bool.false_eq_true, if_false]
      have hgrows : Grows (fun input => .abs input.bookImbalance) a b := ⟨habs, himb⟩
      exact hgrows.mul (by norm_num)

/-- A distance from 1, on the side of a reading that is as far or farther. -/
theorem Calmer.distance (h : Calmer a b) :
    Grows (fun input => .abs (.sub input.tradeVelocityRatio (.fin 1))) a b := by
  rcases h.velocity with ⟨hone_le, hle⟩ | ⟨hle, hle_one⟩
  · have hlow := Fp.sub_mono (w := 1) hone_le
    have hup := Fp.sub_mono (w := 1) hle
    rw [Fp.one_sub_one] at hlow
    simp only [Grows, Fp.abs_eq_of_nonneg hlow, Fp.abs_eq_of_nonneg (Fp.Nonneg.up hlow hup)]
    exact ⟨hlow, hup⟩
  · have hlow := Fp.sub_mono (w := 1) hle
    have hup := Fp.sub_mono (w := 1) hle_one
    rw [Fp.one_sub_one] at hup
    exact ⟨Fp.nonneg_abs (Fp.ne_nan hlow), Fp.abs_anti hlow hup⟩

theorem Calmer.velocityScore (h : Calmer a b) : Grows RegimeInput.velocityScore a b := by
  obtain ⟨w, hw, hpos⟩ := Fp.ofRat_pos (q := 3 / 5) (by norm_num) (by norm_num)
  have hgrows := h.distance.mul hpos
  rw [← hw] at hgrows
  exact hgrows

/-- The freshness is a positive number, at most 1. -/
theorem freshness_cases (input : RegimeInput) :
    ∃ f, input.freshness = .fin f ∧ 0 < f ∧ f ≤ 1 := by
  rw [freshness]
  split_ifs with h
  · exact ⟨1, rfl, one_pos, le_rfl⟩
  · have hpos : 0 < input.eventsPerSec.toNat :=
      Nat.pos_of_ne_zero fun hz => h (UInt64.toNat_inj.mp hz)
    have hcast : Fp.le (.fin 1) (.ofU64 input.eventsPerSec) := Fp.one_le_ofRat hpos
    have hdiv := Fp.Nonneg.div_mono (w := 30) (Fp.nonneg_fin.mpr zero_le_one) hcast (by norm_num)
    have hexact : Fp.le (.fin (1 / 32)) (.div (.fin 1) (.fin 30)) := by
      have hwide : |(1 : ℚ) / 30| ≤ 2 ^ (52 - 5) := by norm_num
      have hrnd := le_rnd_dyadic (k := 5) (n := 1) (by norm_num) hwide (by norm_num)
      rw [Fp.div, if_neg (by norm_num), Fp.ofRat_of_le (hwide.trans (by norm_num))]
      refine Fp.le_fin.mpr (le_trans ?_ hrnd)
      norm_num
    obtain ⟨f, hf, hlow, hhigh⟩ := Fp.min_between (Fp.trans hexact hdiv) (w := 1) (by norm_num)
    exact ⟨f, hf, by linarith, hhigh⟩

theorem Calmer.freshness (h : Calmer a b) : Fp.le a.freshness b.freshness := by
  rcases h.fresh with hzero | ⟨hsome, hle⟩
  · obtain ⟨f, hf, -, hone⟩ := a.freshness_cases
    rw [hf, RegimeInput.freshness, if_pos hzero]
    exact Fp.le_fin.mpr hone
  · have hsome' : b.eventsPerSec ≠ 0 := by
      rintro hzero
      rw [hzero] at hle
      exact hsome (UInt64.le_antisymm hle (by simp))
    rw [RegimeInput.freshness, RegimeInput.freshness, if_neg hsome, if_neg hsome']
    have hcast : Fp.le (.ofU64 a.eventsPerSec) (.ofU64 b.eventsPerSec) :=
      Fp.ofRat_mono (by exact_mod_cast hle)
    have hnonneg : (Fp.ofU64 a.eventsPerSec).Nonneg := Fp.ofRat_nonneg (Nat.cast_nonneg _)
    exact Fp.min_mono (hnonneg.div (by norm_num)) (hnonneg.div_mono hcast (by norm_num))

theorem Calmer.compositeScore (h : Calmer a b) :
    Fp.le a.compositeScore b.compositeScore := by
  obtain ⟨w, hw, hpos⟩ := Fp.ofRat_pos (q := 3 / 10) (by norm_num) (by norm_num)
  have hvpin : Grows RegimeInput.vpin a b := h.vpin
  have hdrift : Grows RegimeInput.midDriftBps a b := h.drift
  have hdepth : Grows RegimeInput.depthDepletion a b := h.depth
  replace hvpin := hvpin.mul (w := 5) (by norm_num)
  replace hdrift := hdrift.mul hpos
  replace hdepth := hdepth.mul (w := 3) (by norm_num)
  rw [← hw] at hdrift
  have hraw := ((((h.spreadScore.add h.imbalanceScore).add hvpin).add h.velocityScore).add
    hdrift).add hdepth
  obtain ⟨f, hf, hfpos, -⟩ := a.freshness_cases
  obtain ⟨g, hg, -, -⟩ := b.freshness_cases
  have hfresh := h.freshness
  rw [hf, hg] at hfresh
  rw [RegimeInput.compositeScore, RegimeInput.compositeScore, hf, hg]
  exact hraw.1.mul_mono hraw.2 hfpos (Fp.le_fin.mp hfresh)

/-- A spread ratio that is a NaN scores as the ratio 1. -/
theorem compositeScore_nan (input : RegimeInput) (h : input.spreadBlowoutRatio = .nan) :
    input.compositeScore = { input with spreadBlowoutRatio := .fin 1 }.compositeScore := by
  have hspread : input.spreadScore = { input with spreadBlowoutRatio := .fin 1 }.spreadScore := by
    simp only [RegimeInput.spreadScore, h, Fp.one_sub_one]
    rfl
  rw [RegimeInput.compositeScore, hspread]
  rfl

end RegimeInput

namespace RegimeClassifier

open RegimeInput

/-- A tight, even book on a slow tape. -/
def quiet : RegimeInput := ⟨.fin 1, .fin 0, .fin 0, .fin 1, .fin 0, .fin 0, 10, false⟩

end RegimeClassifier

end Flowlab.Flow
