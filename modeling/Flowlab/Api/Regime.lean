import Flowlab.Flow.Regime

namespace Flowlab.Api

open Flowlab.Chaos (Regime)
open Flowlab.Flow (RegimeClassifier RegimeInput)
open Framework.Rounding

/-- `math.Max`: a NaN passes, unless the other is plus infinity. -/
def goMax : Fp → Fp → Fp
  | .inf false, _ => .inf false
  | _, .inf false => .inf false
  | .nan, _ => .nan
  | _, .nan => .nan
  | x, y => if Fp.lt y x then x else y

/-- `math.Min`: a NaN passes, unless the other is minus infinity. -/
def goMin : Fp → Fp → Fp
  | .inf true, _ => .inf true
  | _, .inf true => .inf true
  | .nan, _ => .nan
  | _, .nan => .nan
  | x, y => if Fp.lt x y then x else y

/-- The score of `regime.go`, each operation with its own rounding: Go may fuse a product into the sum
it goes to, which it does on arm64 and does not on amd64 by default. -/
def compositeScore (input : RegimeInput) : Fp :=
  let spreadScore :=
    if input.bookCrossed then .fin 0
    else goMax (.fin 0) (.sub input.spreadBlowoutRatio (.fin 1))
  let imbalanceScore :=
    if input.bookCrossed then .fin 0 else Fp.mul (.abs input.bookImbalance) (.fin 3)
  let vpinScore := Fp.mul input.vpin (.fin 5)
  let velocityScore := Fp.mul (.abs (.sub input.tradeVelocityRatio (.fin 1))) (.ofRat (3 / 5))
  let driftScore := Fp.mul input.midDriftBps (.ofRat (3 / 10))
  let depthScore := Fp.mul input.depthDepletion (.fin 3)
  let raw := Fp.add (.add (.add (.add (.add spreadScore imbalanceScore) vpinScore)
    velocityScore) driftScore) depthScore
  let freshness :=
    if input.eventsPerSec = 0 then .fin 1
    else goMin (.fin 1) (.div (.ofU64 input.eventsPerSec) (.fin 30))
  .mul raw freshness

def classifyRegime (input : RegimeInput) : UInt8 :=
  let s := compositeScore input
  if Fp.le (.ofRat 3) s then 3
  else if Fp.le (.ofRat (3 / 2)) s then 2
  else if Fp.le (.ofRat (3 / 5)) s then 1
  else 0

theorem goMax_zero {x : Fp} (h : x ≠ .nan) : goMax (.fin 0) x = Fp.max x (.fin 0) := by
  cases x with
  | nan => exact absurd rfl h
  | inf n => cases n <;> rfl
  | fin q => rfl

theorem goMin_one {x : Fp} (h : x.Nonneg) : goMin (.fin 1) x = Fp.min x (.fin 1) := by
  rcases Fp.nonneg_cases h with rfl | ⟨q, rfl, -⟩
  · rfl
  · rfl

theorem freshness_eq (input : RegimeInput) :
    (if input.eventsPerSec = 0 then .fin 1
      else goMin (.fin 1) (.div (.ofU64 input.eventsPerSec) (.fin 30))) = input.freshness := by
  have hnonneg : (Fp.ofU64 input.eventsPerSec).Nonneg := Fp.ofRat_nonneg (Nat.cast_nonneg _)
  rw [RegimeInput.freshness, goMin_one (hnonneg.div (by norm_num))]

theorem compositeScore_eq {input : RegimeInput}
    (h : input.bookCrossed = true ∨ input.spreadBlowoutRatio ≠ .nan) :
    compositeScore input = input.compositeScore := by
  have hspread : (if input.bookCrossed then .fin 0
      else goMax (.fin 0) (.sub input.spreadBlowoutRatio (.fin 1))) = input.spreadScore := by
    rw [RegimeInput.spreadScore]
    split_ifs with hcrossed
    · rfl
    · exact goMax_zero (Fp.sub_ne_nan (h.resolve_left hcrossed) 1)
  rw [compositeScore, RegimeInput.compositeScore, freshness_eq, hspread]
  rfl

theorem compositeScore_nan {input : RegimeInput} (hcrossed : input.bookCrossed = false)
    (hnan : input.spreadBlowoutRatio = .nan) : compositeScore input = .nan := by
  have hspread : goMax (.fin 0) (.sub input.spreadBlowoutRatio (.fin 1)) = .nan := by
    rw [hnan]
    rfl
  simp only [compositeScore, hcrossed, Bool.false_eq_true, if_false, hspread, Fp.nan_add,
    Fp.nan_mul]

theorem label_eq (crisis aggressive volatile : Bool) :
    (if crisis then 3 else if aggressive then 2 else if volatile then 1 else 0 : UInt8) =
      UInt8.ofNat (if crisis then Regime.crisis else if aggressive then Regime.aggressive
        else if volatile then Regime.volatile else Regime.calm).rank := by
  cases crisis <;> cases aggressive <;> cases volatile <;> rfl

/-- **One label on both sides.** Where Go fuses no product into a sum, the dashboard's mirror of the
classifier gives the engine's regime for every input, infinities and NaNs among them, with one
exception: a spread ratio that is a NaN, under a book that is not crossed. There the engine
classifies as with the ratio 1, by the other readings, and the mirror shows calm whatever they are.
-/
theorem mirror_agrees (input : RegimeInput) :
    (input.bookCrossed = true ∨ input.spreadBlowoutRatio ≠ .nan →
      classifyRegime input = UInt8.ofNat (RegimeClassifier.default.classify input).rank) ∧
    (input.bookCrossed = false ∧ input.spreadBlowoutRatio = .nan →
      classifyRegime input = 0 ∧ RegimeClassifier.default.classify input =
        RegimeClassifier.default.classify { input with spreadBlowoutRatio := .fin 1 }) := by
  refine ⟨?_, ?_⟩
  · intro h
    simp only [classifyRegime, RegimeClassifier.classify, RegimeClassifier.default,
      compositeScore_eq h]
    exact label_eq _ _ _
  · rintro ⟨hcrossed, hnan⟩
    refine ⟨?_, ?_⟩
    · simp only [classifyRegime, compositeScore_nan hcrossed hnan, Fp.le_nan, Bool.false_eq_true,
        if_false]
    · simp only [RegimeClassifier.classify, input.compositeScore_nan hnan]

end Flowlab.Api
