import Mathlib.Data.Int.Log
import Mathlib.Data.Rat.Floor
import Mathlib.Tactic

namespace Flowlab.Framework.Rounding

/-- Nearest integer, ties to even. -/
def roundEven (q : ℚ) : ℤ :=
  if q - ⌊q⌋ < 1 / 2 then ⌊q⌋
  else if 1 / 2 < q - ⌊q⌋ then ⌊q⌋ + 1
  else if ⌊q⌋ % 2 = 0 then ⌊q⌋
  else ⌊q⌋ + 1

/-- Nearest integer, ties away from zero. -/
def roundAway (q : ℚ) : ℤ := if 0 ≤ q then ⌊q + 1 / 2⌋ else ⌈q - 1 / 2⌉

def trunc (q : ℚ) : ℤ := if 0 ≤ q then ⌊q⌋ else ⌈q⌉

/-- The exponent of the last of the 53 binary places of `q`; the subnormals share one. -/
def lastPlace (q : ℚ) : ℤ := max (Int.log 2 |q| - 52) (-1074)

/-- The nearest `binary64` number of an unbounded exponent range above. -/
def rnd (q : ℚ) : ℚ := roundEven (q / 2 ^ lastPlace q) * 2 ^ lastPlace q

/-- A `binary64` number, or one of the narrower `binary32`; the sign of zero is left out. -/
inductive Fp where
  | nan
  | inf (negative : Bool)
  | fin (q : ℚ)
  deriving DecidableEq

namespace Fp

def ofRat (q : ℚ) : Fp := if 2 ^ 1024 ≤ |rnd q| then inf (decide (q < 0)) else fin (rnd q)

def neg : Fp → Fp
  | nan => nan
  | inf n => inf (!n)
  | fin q => fin (-q)

def add : Fp → Fp → Fp
  | fin a, fin b => ofRat (a + b)
  | inf m, inf n => if m = n then inf m else nan
  | inf m, fin _ => inf m
  | fin _, inf n => inf n
  | _, _ => nan

def sub (x y : Fp) : Fp := add x (neg y)

def mul : Fp → Fp → Fp
  | fin a, fin b => ofRat (a * b)
  | inf m, inf n => inf (xor m n)
  | inf m, fin b => if b = 0 then nan else inf (xor m (decide (b < 0)))
  | fin a, inf n => if a = 0 then nan else inf (xor (decide (a < 0)) n)
  | _, _ => nan

def div : Fp → Fp → Fp
  | fin a, fin b =>
    if b = 0 then if a = 0 then nan else inf (decide (a < 0)) else ofRat (a / b)
  | inf m, fin b => inf (xor m (decide (b < 0)))
  | fin _, inf _ => fin 0
  | _, _ => nan

def lt : Fp → Fp → Bool
  | fin a, fin b => decide (a < b)
  | inf true, inf false => true
  | inf true, fin _ => true
  | fin _, inf false => true
  | _, _ => false

/-- A NaN is not comparable. -/
def le : Fp → Fp → Bool
  | nan, _ => false
  | _, nan => false
  | x, y => !lt y x

/-- A NaN gives way. -/
def max : Fp → Fp → Fp
  | nan, y => y
  | x, nan => x
  | x, y => if lt x y then y else x

/-- `if self < lo { lo } else if hi < self { hi } else { self }`: a NaN passes. -/
def clamp (x lo hi : Fp) : Fp := if lt x lo then lo else if lt hi x then hi else x

def round : Fp → Fp
  | fin q => fin (roundAway q)
  | x => x

/-- A saturating cast to an unsigned integer below `bound`; a NaN becomes 0. -/
def toUInt (bound : ℕ) : Fp → ℕ
  | nan => 0
  | inf true => 0
  | inf false => bound - 1
  | fin q => min (trunc q).toNat (bound - 1)

def toU32 (x : Fp) : UInt32 := UInt32.ofNat (toUInt (2 ^ 32) x)

def toU64 (x : Fp) : UInt64 := UInt64.ofNat (toUInt (2 ^ 64) x)

def ofU64 (n : UInt64) : Fp := ofRat n.toNat

end Fp

theorem floor_le_roundEven (q : ℚ) : ⌊q⌋ ≤ roundEven q := by
  simp only [roundEven]
  split_ifs <;> omega

theorem roundEven_le {q : ℚ} {n : ℤ} (h : q ≤ n) : roundEven q ≤ n := by
  have hf : ⌊q⌋ ≤ n := Int.floor_le_iff.mpr (by linarith)
  rcases hf.eq_or_lt with heq | hlt
  · have hq : q = n := le_antisymm h (heq ▸ Int.floor_le q)
    have hz : q - ⌊q⌋ < 1 / 2 := by rw [heq, hq]; norm_num
    rw [roundEven, if_pos hz, heq]
  · simp only [roundEven]
    split_ifs <;> omega

theorem lastPlace_le {q : ℚ} {k : ℕ} (hk : k ≤ 52) (h : |q| ≤ 2 ^ (52 - k)) : lastPlace q ≤ -k := by
  refine max_le ?_ (by omega)
  by_cases hq : q = 0
  · simp [hq]
    omega
  · have hpos : 0 < |q| := abs_pos.mpr hq
    have hlog : Int.log 2 |q| ≤ Int.log 2 (((2 : ℕ) : ℚ) ^ (((52 - k : ℕ)) : ℤ)) :=
      Int.log_mono_right hpos (by exact_mod_cast h)
    rw [Int.log_zpow Nat.one_lt_two] at hlog
    omega

/-- Below `2 ^ (52 - k)` the last place divides `2 ^ -k`, so every multiple of that is one of it. -/
theorem scaled_int {q : ℚ} {k : ℕ} (hk : k ≤ 52) (h : |q| ≤ 2 ^ (52 - k)) (n : ℤ) :
    ∃ m : ℤ, (n : ℚ) / 2 ^ k / 2 ^ lastPlace q = m := by
  have hle := lastPlace_le hk h
  obtain ⟨j, hj⟩ := Int.eq_ofNat_of_zero_le (show 0 ≤ -k - lastPlace q by omega)
  refine ⟨n * 2 ^ j, ?_⟩
  have hlast : lastPlace q = -k - j := by omega
  rw [hlast, zpow_sub₀ (by norm_num), zpow_neg, zpow_natCast, zpow_natCast]
  push_cast
  field_simp

/-- Rounding never passes a number that is exact. -/
theorem rnd_le_dyadic {q : ℚ} {k : ℕ} (hk : k ≤ 52) (h : |q| ≤ 2 ^ (52 - k)) {n : ℤ}
    (hn : q ≤ n / 2 ^ k) : rnd q ≤ n / 2 ^ k := by
  have hp : (0 : ℚ) < 2 ^ lastPlace q := by positivity
  obtain ⟨m, hm⟩ := scaled_int hk h n
  have hle : roundEven (q / 2 ^ lastPlace q) ≤ m := by
    apply roundEven_le
    rw [← hm]
    gcongr
  have hcast : (roundEven (q / 2 ^ lastPlace q) : ℚ) ≤ n / 2 ^ k / 2 ^ lastPlace q := by
    rw [hm]
    exact_mod_cast hle
  exact (le_div_iff₀ hp).mp hcast

theorem le_rnd_dyadic {q : ℚ} {k : ℕ} (hk : k ≤ 52) (h : |q| ≤ 2 ^ (52 - k)) {n : ℤ}
    (hn : n / 2 ^ k ≤ q) : n / 2 ^ k ≤ rnd q := by
  have hp : (0 : ℚ) < 2 ^ lastPlace q := by positivity
  obtain ⟨m, hm⟩ := scaled_int hk h n
  have hle : m ≤ roundEven (q / 2 ^ lastPlace q) := by
    refine le_trans (Int.le_floor.mpr ?_) (floor_le_roundEven _)
    rw [← hm]
    gcongr
  have hcast : (n : ℚ) / 2 ^ k / 2 ^ lastPlace q ≤ roundEven (q / 2 ^ lastPlace q) := by
    rw [hm]
    exact_mod_cast hle
  exact (div_le_iff₀ hp).mp hcast

theorem rnd_le {q : ℚ} (h : |q| ≤ 2 ^ 52) {n : ℤ} (hn : q ≤ n) : rnd q ≤ n := by
  have hle := rnd_le_dyadic (k := 0) (n := n) (Nat.zero_le _) h (by rwa [pow_zero, div_one])
  rwa [pow_zero, div_one] at hle

theorem le_rnd {q : ℚ} (h : |q| ≤ 2 ^ 52) {n : ℤ} (hn : (n : ℚ) ≤ q) : n ≤ rnd q := by
  have hle := le_rnd_dyadic (k := 0) (n := n) (Nat.zero_le _) h (by rwa [pow_zero, div_one])
  rwa [pow_zero, div_one] at hle

theorem rnd_int {n : ℤ} (h : |(n : ℚ)| ≤ 2 ^ 52) : rnd n = n :=
  le_antisymm (rnd_le h le_rfl) (le_rnd h le_rfl)

namespace Fp

theorem ofRat_of_le {q : ℚ} (h : |q| ≤ 2 ^ 52) : ofRat q = fin (rnd q) := by
  have hq := abs_le.mp h
  have hlo : ((-2 ^ 52 : ℤ) : ℚ) ≤ rnd q := le_rnd h (by push_cast; exact hq.1)
  have hhi : rnd q ≤ ((2 ^ 52 : ℤ) : ℚ) := rnd_le h (by push_cast; exact hq.2)
  push_cast at hlo hhi
  have hbig : (2 : ℚ) ^ 52 < 2 ^ 1024 := pow_lt_pow_right₀ one_lt_two (by norm_num)
  rw [ofRat, if_neg (not_le.mpr ((abs_le.mpr ⟨hlo, hhi⟩).trans_lt hbig))]

theorem ofRat_int {n : ℤ} (h : |(n : ℚ)| ≤ 2 ^ 52) : ofRat n = fin n := by
  rw [ofRat_of_le h, rnd_int h]

theorem mul_nan (x : Fp) : mul x nan = nan := by
  cases x <;> rfl

theorem add_nan (x : Fp) : add x nan = nan := by
  cases x <;> rfl

/-- A number clamped to the unit interval is a NaN or lies in it. -/
theorem clamp_unit (x : Fp) :
    clamp x (fin 0) (fin 1) = nan ∨ ∃ t : ℚ, clamp x (fin 0) (fin 1) = fin t ∧ 0 ≤ t ∧ t ≤ 1 := by
  cases x with
  | nan => exact .inl rfl
  | inf n =>
    cases n
    · exact .inr ⟨1, rfl, zero_le_one, le_rfl⟩
    · exact .inr ⟨0, rfl, le_rfl, zero_le_one⟩
  | fin q =>
    refine .inr ?_
    simp only [clamp, lt, decide_eq_true_eq]
    split_ifs with h0 h1
    · exact ⟨0, rfl, le_rfl, zero_le_one⟩
    · exact ⟨1, rfl, zero_le_one, le_rfl⟩
    · exact ⟨q, rfl, not_lt.mp h0, not_lt.mp h1⟩

theorem toU32_round_le {q : ℚ} {n : ℕ} (h0 : 0 ≤ q) (hn : q ≤ n) :
    (toU32 (round (fin q))).toNat ≤ n := by
  have hr : roundAway q ≤ n := by
    rw [roundAway, if_pos h0]
    have hlt : q + 1 / 2 < ((n : ℤ) + 1 : ℤ) := by push_cast; linarith
    have := Int.floor_lt.mpr hlt
    omega
  have ht : trunc (roundAway q) ≤ n := by
    simp only [trunc, Int.floor_intCast, Int.ceil_intCast]
    split_ifs <;> exact hr
  simp only [toU32, round, toUInt, UInt32.toNat_ofNat']
  refine (Nat.mod_le _ _).trans ((min_le_left _ _).trans ?_)
  omega

end Fp

end Flowlab.Framework.Rounding
