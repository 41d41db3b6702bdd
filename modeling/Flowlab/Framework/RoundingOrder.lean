import Flowlab.Framework.Rounding

namespace Flowlab.Framework.Rounding

theorem roundEven_mono {q r : ℚ} (h : q ≤ r) : roundEven q ≤ roundEven r := by
  rcases (Int.floor_mono h).lt_or_eq with hlt | heq
  · have hq : roundEven q ≤ ⌊q⌋ + 1 := by
      simp only [roundEven]
      split_ifs <;> omega
    exact hq.trans (hlt.trans_le (floor_le_roundEven r))
  · simp only [roundEven, heq]
    have hfract : q - ⌊r⌋ ≤ r - ⌊r⌋ := sub_le_sub_right h _
    split_ifs <;> first | omega | linarith

theorem le_roundEven {q : ℚ} {n : ℤ} (h : (n : ℚ) ≤ q) : n ≤ roundEven q :=
  (Int.le_floor.mpr h).trans (floor_le_roundEven q)

theorem roundEven_int (n : ℤ) : roundEven (n : ℚ) = n := by
  simp [roundEven]

/-- The sign plays no part: a tie goes to the even neighbour on either side of zero. -/
theorem roundEven_neg (q : ℚ) : roundEven (-q) = -roundEven q := by
  by_cases hint : q = ⌊q⌋
  · have hround : ∀ n : ℤ, roundEven (n : ℚ) = n := by
      intro n
      simp [roundEven]
    rw [hint, ← Int.cast_neg, hround, hround]
  · have hlt : (⌊q⌋ : ℚ) < q := lt_of_le_of_ne (Int.floor_le q) (Ne.symm hint)
    have hfloor : ⌊-q⌋ = -⌊q⌋ - 1 := by
      rw [Int.floor_eq_iff]
      push_cast
      constructor
      · linarith [Int.lt_floor_add_one q]
      · linarith
    simp only [roundEven, hfloor]
    push_cast
    split_ifs <;> first | omega | linarith

theorem lastPlace_neg (q : ℚ) : lastPlace (-q) = lastPlace q := by
  rw [lastPlace, lastPlace, abs_neg]

theorem rnd_neg (q : ℚ) : rnd (-q) = -rnd q := by
  rw [rnd, rnd, lastPlace_neg, neg_div, roundEven_neg, Int.cast_neg, neg_mul]

theorem rnd_nonneg {q : ℚ} (h : 0 ≤ q) : 0 ≤ rnd q := by
  have hp : (0 : ℚ) < 2 ^ lastPlace q := by positivity
  have hround : 0 ≤ roundEven (q / 2 ^ lastPlace q) :=
    le_roundEven (by rw [Int.cast_zero]; exact div_nonneg h hp.le)
  exact mul_nonneg (by exact_mod_cast hround) hp.le

theorem lastPlace_mono {q r : ℚ} (h0 : 0 < q) (h : q ≤ r) : lastPlace q ≤ lastPlace r := by
  rw [lastPlace, lastPlace, abs_of_pos h0, abs_of_pos (h0.trans_le h)]
  exact max_le_max (sub_le_sub_right (Int.log_mono_right h0 h) _) le_rfl

/-- Where the places of two numbers differ, a power of two lies between them, and it is exact. -/
theorem rnd_le_of_lastPlace_lt {q r : ℚ} (h0 : 0 < q) (hr : 0 < r)
    (hlt : lastPlace q < lastPlace r) : rnd q ≤ rnd r := by
  have hplace : lastPlace r = Int.log 2 r - 52 := by
    have hmin : -1074 ≤ lastPlace q := le_max_right _ _
    have hdef : lastPlace r = max (Int.log 2 r - 52) (-1074) := by rw [lastPlace, abs_of_pos hr]
    rw [hdef] at hlt ⊢
    exact max_eq_left (by omega)
  have hbelow : q ≤ 2 ^ (lastPlace r + 52) := by
    have hlog : Int.log 2 q - 52 ≤ lastPlace q := by
      rw [lastPlace, abs_of_pos h0]
      exact le_max_left _ _
    refine (Int.lt_zpow_succ_log_self one_lt_two q).le.trans ?_
    rw [Nat.cast_ofNat]
    exact zpow_le_zpow_right₀ one_le_two (by omega)
  have habove : (2 : ℚ) ^ (lastPlace r + 52) ≤ r := by
    have hself := Int.zpow_log_le_self one_lt_two hr
    rw [Nat.cast_ofNat] at hself
    rwa [hplace, sub_add_cancel]
  have hexact : ∀ p : ℤ, p ≤ lastPlace r + 52 →
      ∃ n : ℤ, (2 : ℚ) ^ (lastPlace r + 52) / 2 ^ p = n := by
    intro p hp
    obtain ⟨k, hk⟩ := Int.eq_ofNat_of_zero_le (sub_nonneg.mpr hp)
    refine ⟨2 ^ k, ?_⟩
    rw [← zpow_sub₀ two_ne_zero, hk]
    push_cast
    rfl
  have hq : rnd q ≤ 2 ^ (lastPlace r + 52) := by
    have hp : (0 : ℚ) < 2 ^ lastPlace q := by positivity
    obtain ⟨n, hn⟩ := hexact (lastPlace q) (by omega)
    rw [rnd, ← le_div_iff₀ hp, hn]
    refine Int.cast_le.mpr (roundEven_le ?_)
    rw [← hn]
    gcongr
  have hrle : (2 : ℚ) ^ (lastPlace r + 52) ≤ rnd r := by
    have hp : (0 : ℚ) < 2 ^ lastPlace r := by positivity
    obtain ⟨n, hn⟩ := hexact (lastPlace r) (by omega)
    rw [rnd, ← div_le_iff₀ hp, hn]
    refine Int.cast_le.mpr (le_roundEven ?_)
    rw [← hn]
    gcongr
  exact hq.trans hrle

/-- Rounding keeps the order. -/
theorem rnd_mono {q r : ℚ} (h : q ≤ r) : rnd q ≤ rnd r := by
  have hpos : ∀ {q r : ℚ}, 0 < q → q ≤ r → rnd q ≤ rnd r := by
    intro q r h0 h
    rcases (lastPlace_mono h0 h).lt_or_eq with hlt | heq
    · exact rnd_le_of_lastPlace_lt h0 (h0.trans_le h) hlt
    · have hp : (0 : ℚ) < 2 ^ lastPlace r := by positivity
      rw [rnd, rnd, heq]
      refine mul_le_mul_of_nonneg_right (Int.cast_le.mpr (roundEven_mono ?_)) hp.le
      gcongr
  rcases lt_or_ge 0 q with hq | hq
  · exact hpos hq h
  · rcases lt_or_ge r 0 with hr | hr
    · have hneg := hpos (neg_pos.mpr hr) (neg_le_neg h)
      rw [rnd_neg, rnd_neg] at hneg
      exact neg_le_neg_iff.mp hneg
    · have hneg := rnd_nonneg (neg_nonneg.mpr hq)
      rw [rnd_neg] at hneg
      exact (neg_nonneg.mp hneg).trans (rnd_nonneg hr)

theorem rnd_eq_self {q : ℚ} {n : ℤ} (h : q / 2 ^ lastPlace q = n) : rnd q = q := by
  have hp : (2 : ℚ) ^ lastPlace q ≠ 0 := by positivity
  rw [rnd, h, roundEven_int, ← h, div_mul_cancel₀ _ hp]

/-- A number of 53 places is exact. -/
theorem rnd_exact {n e : ℤ} (hn : |n| ≤ 2 ^ 53) (he : -1074 ≤ e) :
    rnd (n * 2 ^ e) = n * 2 ^ e := by
  have hbelow : ∀ {n e : ℤ}, |n| < 2 ^ 53 → -1074 ≤ e → rnd (n * 2 ^ e) = n * 2 ^ e := by
    intro n e hn he
    by_cases hzero : n = 0
    · simp [hzero, rnd, roundEven]
    · have hpos : 0 < |(n : ℚ) * 2 ^ e| :=
        abs_pos.mpr (mul_ne_zero (by exact_mod_cast hzero) (by positivity))
      have hwide : |(n : ℚ) * 2 ^ e| < ((2 : ℕ) : ℚ) ^ (53 + e) := by
        rw [abs_mul, abs_of_pos (by positivity : (0 : ℚ) < 2 ^ e), Nat.cast_ofNat,
          zpow_add₀ two_ne_zero]
        have hcast : |(n : ℚ)| < 2 ^ (53 : ℤ) := by exact_mod_cast hn
        gcongr
      have hlog := (Int.lt_zpow_iff_log_lt one_lt_two hpos).mp hwide
      have hplace : lastPlace (n * 2 ^ e) ≤ e := max_le (by omega) he
      obtain ⟨k, hk⟩ := Int.eq_ofNat_of_zero_le (sub_nonneg.mpr hplace)
      apply rnd_eq_self (n := n * 2 ^ k)
      rw [mul_div_assoc, ← zpow_sub₀ two_ne_zero, hk]
      push_cast
      rfl
  rcases hn.lt_or_eq with hlt | heq
  · exact hbelow hlt he
  · obtain ⟨m, hm⟩ : ∃ m, n = m * 2 := by
      rcases abs_eq (by norm_num) |>.mp heq with rfl | rfl
      · exact ⟨2 ^ 52, by norm_num⟩
      · exact ⟨-2 ^ 52, by norm_num⟩
    have hhalf : |m| < 2 ^ 53 := by
      rw [hm, abs_mul] at heq
      norm_num at heq ⊢
      omega
    have hsame : (n : ℚ) * 2 ^ e = m * 2 ^ (e + 1) := by
      rw [hm, zpow_add_one₀ two_ne_zero]
      push_cast
      ring
    rw [hsame]
    exact hbelow hhalf (by omega)

/-- What is rounded is exact. -/
theorem rnd_rnd (q : ℚ) : rnd (rnd q) = rnd q := by
  refine rnd_exact ?_ (le_max_right _ _)
  have hp : (0 : ℚ) < 2 ^ lastPlace q := by positivity
  have hwide : |q / 2 ^ lastPlace q| ≤ ((2 ^ 53 : ℤ) : ℚ) := by
    rw [abs_div, abs_of_pos hp, div_le_iff₀ hp]
    refine (Int.lt_zpow_succ_log_self one_lt_two |q|).le.trans ?_
    have hlast : Int.log 2 |q| - 52 ≤ lastPlace q := le_max_left _ _
    have hpow : ((2 ^ 53 : ℤ) : ℚ) * 2 ^ lastPlace q = 2 ^ (53 + lastPlace q) := by
      rw [zpow_add₀ two_ne_zero]
      norm_num
    rw [hpow, Nat.cast_ofNat]
    exact zpow_le_zpow_right₀ one_le_two (by omega)
  have hboth := abs_le.mp hwide
  refine abs_le.mpr ⟨le_roundEven ?_, roundEven_le hboth.2⟩
  push_cast at hboth ⊢
  exact hboth.1

theorem rnd_abs (q : ℚ) : rnd |q| = |rnd q| := by
  rcases le_total 0 q with h | h
  · rw [abs_of_nonneg h, abs_of_nonneg (rnd_nonneg h)]
  · have hneg := rnd_nonneg (neg_nonneg.mpr h)
    rw [rnd_neg] at hneg
    rw [abs_of_nonpos h, rnd_neg, abs_of_nonpos (neg_nonneg.mp hneg)]

namespace Fp

variable {x y z : Fp}

def abs : Fp → Fp
  | nan => nan
  | inf _ => inf false
  | fin q => fin |q|

/-- A NaN gives way. -/
def min : Fp → Fp → Fp
  | nan, y => y
  | x, nan => x
  | x, y => if lt y x then y else x

/-- Neither a NaN nor below zero. -/
def Nonneg (x : Fp) : Prop := le (fin 0) x

theorem le_fin {p q : ℚ} : le (fin p) (fin q) ↔ p ≤ q := by
  simp [le, lt]

theorem nonneg_fin {q : ℚ} : (fin q).Nonneg ↔ 0 ≤ q := le_fin

theorem nonneg_cases (h : x.Nonneg) : x = inf false ∨ ∃ q, x = fin q ∧ 0 ≤ q := by
  cases x with
  | nan => cases h
  | inf n =>
    cases n
    · exact .inl rfl
    · cases h
  | fin q => exact .inr ⟨q, rfl, nonneg_fin.mp h⟩

theorem nonneg_abs (h : x ≠ nan) : x.abs.Nonneg := by
  cases x with
  | nan => exact absurd rfl h
  | inf n => rfl
  | fin q => exact nonneg_fin.mpr (abs_nonneg q)

/-- What lies above a number that is not negative. -/
theorem le_cases (hx : x.Nonneg) (h : le x y) :
    y = inf false ∨ ∃ p q, x = fin p ∧ y = fin q ∧ 0 ≤ p ∧ p ≤ q := by
  rcases nonneg_cases hx with rfl | ⟨p, rfl, hp⟩
  · cases y with
    | nan => cases h
    | inf n =>
      cases n
      · exact .inl rfl
      · cases h
    | fin q => cases h
  · cases y with
    | nan => cases h
    | inf n =>
      cases n
      · exact .inl rfl
      · cases h
    | fin q => exact .inr ⟨p, q, rfl, rfl, hp, le_fin.mp h⟩

theorem ne_nan (h : le x y) : y ≠ nan := by
  rintro rfl
  cases x <;> cases h

theorem inf_le (h : x ≠ nan) : le (inf true) x := by
  cases x with
  | nan => exact absurd rfl h
  | inf n => cases n <;> rfl
  | fin q => rfl

theorem le_inf (h : x ≠ nan) : le x (inf false) := by
  cases x with
  | nan => exact absurd rfl h
  | inf n => cases n <;> rfl
  | fin q => rfl

theorem eq_inf_of_le (h : le (inf false) x) : x = inf false := by
  rcases le_cases (x := inf false) rfl h with hx | ⟨p, q, hp, -⟩
  · exact hx
  · cases hp

theorem trans (h : le x y) (h' : le y z) : le x z := by
  cases x with
  | nan => cases h
  | inf m =>
    cases m
    · rw [eq_inf_of_le h] at h'
      exact h'
    · exact inf_le (ne_nan h')
  | fin p =>
    cases y with
    | nan => cases h
    | inf n =>
      cases n
      · rw [eq_inf_of_le h']
        rfl
      · cases h
    | fin q =>
      cases z with
      | nan => cases h'
      | inf n =>
        cases n
        · rfl
        · cases h'
      | fin r => exact le_fin.mpr ((le_fin.mp h).trans (le_fin.mp h'))

theorem Nonneg.up (hx : x.Nonneg) (h : le x y) : y.Nonneg := trans hx h

theorem ofRat_zero : ofRat 0 = fin 0 := by
  have hint : ofRat ((0 : ℤ) : ℚ) = fin ((0 : ℤ) : ℚ) := ofRat_int (by norm_num)
  exact_mod_cast hint

theorem one_sub_one : sub (fin 1) (fin 1) = fin 0 := by
  rw [sub, neg, add, add_neg_cancel, ofRat_zero]

theorem le_nan (x : Fp) : le x nan = false := by
  cases x <;> rfl

theorem nan_add (x : Fp) : add nan x = nan := by
  cases x <;> rfl

theorem nan_mul (x : Fp) : mul nan x = nan := by
  cases x <;> rfl

theorem ofRat_ne_nan (q : ℚ) : ofRat q ≠ nan := by
  rw [ofRat]
  split_ifs <;> simp

theorem ofRat_nonneg {q : ℚ} (h : 0 ≤ q) : (ofRat q).Nonneg := by
  rw [ofRat]
  split_ifs
  · rw [decide_eq_false (not_lt.mpr h)]
    rfl
  · exact nonneg_fin.mpr (rnd_nonneg h)

/-- Rounding to a number keeps the order, past the largest number too. -/
theorem ofRat_mono {q r : ℚ} (h : q ≤ r) : le (ofRat q) (ofRat r) := by
  have hmono := rnd_mono h
  have hsign : ∀ {q : ℚ}, q < 0 → rnd q ≤ 0 := by
    intro q hq
    have hneg := rnd_nonneg (neg_nonneg.mpr hq.le)
    rw [rnd_neg] at hneg
    exact neg_nonneg.mp hneg
  rcases lt_or_ge q 0 with hq | hq
  · rcases lt_or_ge r 0 with hr | hr
    · have hwide : |rnd r| ≤ |rnd q| := by
        rw [abs_of_nonpos (hsign hr), abs_of_nonpos (hsign hq)]
        exact neg_le_neg hmono
      simp only [ofRat, decide_eq_true hq, decide_eq_true hr]
      split_ifs with h1 h2 h2
      · rfl
      · rfl
      · exact absurd (h2.trans hwide) h1
      · exact le_fin.mpr hmono
    · refine trans (y := fin 0) ?_ (ofRat_nonneg hr)
      rw [ofRat, decide_eq_true hq]
      split_ifs
      · rfl
      · exact le_fin.mpr (hsign hq)
  · have hr := hq.trans h
    have hwide : |rnd q| ≤ |rnd r| := by
      rw [abs_of_nonneg (rnd_nonneg hq), abs_of_nonneg (rnd_nonneg hr)]
      exact hmono
    simp only [ofRat, decide_eq_false (not_lt.mpr hq), decide_eq_false (not_lt.mpr hr)]
    split_ifs with h1 h2 h2
    · rfl
    · exact absurd (h1.trans hwide) h2
    · rfl
    · exact le_fin.mpr hmono

/-- Up to a power of two below the largest number nothing overflows. -/
theorem ofRat_of_abs_le {q : ℚ} {k : ℕ} (hk : k < 1024) (h : |q| ≤ 2 ^ k) :
    ofRat q = fin (rnd q) := by
  have hpow := rnd_exact (n := 1) (e := k) (by norm_num) (by omega)
  rw [Int.cast_one, one_mul, zpow_natCast] at hpow
  have hle : |rnd q| ≤ 2 ^ k := by
    rw [← rnd_abs, ← hpow]
    exact rnd_mono h
  have hbig : (2 : ℚ) ^ k < 2 ^ 1024 := pow_lt_pow_right₀ one_lt_two hk
  rw [ofRat, if_neg (not_le.mpr (hle.trans_lt hbig))]

/-- Adding zero to a rounded number changes nothing. -/
theorem ofRat_add_zero (q : ℚ) : add (ofRat q) (fin 0) = ofRat q := by
  by_cases h : 2 ^ 1024 ≤ |rnd q|
  · rw [ofRat, if_pos h]
    rfl
  · have hfin : ofRat q = fin (rnd q) := if_neg h
    have hagain : ofRat (rnd q) = fin (rnd q) := by rw [ofRat, rnd_rnd, if_neg h]
    rw [hfin, add, add_zero, hagain]

theorem add_add_zero (x y : Fp) : add (add x y) (fin 0) = add x y := by
  cases x with
  | nan => cases y <;> rfl
  | inf m =>
    cases y with
    | nan => rfl
    | inf n => cases m <;> cases n <;> rfl
    | fin q => rfl
  | fin p =>
    cases y with
    | nan => rfl
    | inf n => rfl
    | fin q => exact ofRat_add_zero (p + q)

theorem Nonneg.add (hx : x.Nonneg) (hy : y.Nonneg) : (add x y).Nonneg := by
  rcases nonneg_cases hx with rfl | ⟨p, rfl, hp⟩ <;>
    rcases nonneg_cases hy with rfl | ⟨q, rfl, hq⟩
  · rfl
  · rfl
  · rfl
  · exact ofRat_nonneg (add_nonneg hp hq)

/-- A sum grows with its summands; none of them is negative, so no infinities cancel. -/
theorem Nonneg.add_mono {x' y' : Fp} (hx : x.Nonneg) (hy : y.Nonneg) (h : le x x') (h' : le y y') :
    le (Fp.add x y) (Fp.add x' y') := by
  have hsum := hx.add hy
  rcases le_cases hx h with rfl | ⟨p, p', rfl, rfl, hp, hpp⟩
  · have htop : Fp.add (inf false) y' = inf false := by
      rcases nonneg_cases (hy.up h') with rfl | ⟨q, rfl, -⟩ <;> rfl
    rw [htop]
    exact le_inf (ne_nan hsum)
  · rcases le_cases hy h' with rfl | ⟨q, q', rfl, rfl, hq, hqq⟩
    · exact le_inf (ne_nan hsum)
    · exact ofRat_mono (add_le_add hpp hqq)

theorem Nonneg.mul {w : ℚ} (hx : x.Nonneg) (hw : 0 < w) : (mul x (fin w)).Nonneg := by
  rcases nonneg_cases hx with rfl | ⟨p, rfl, hp⟩
  · rw [Fp.mul, if_neg hw.ne', decide_eq_false (not_lt.mpr hw.le)]
    rfl
  · exact ofRat_nonneg (mul_nonneg hp hw.le)

/-- A product grows with its factors, of which one is a positive number. -/
theorem Nonneg.mul_mono {v w : ℚ} (hx : x.Nonneg) (h : le x y) (hv : 0 < v) (hvw : v ≤ w) :
    le (Fp.mul x (fin v)) (Fp.mul y (fin w)) := by
  have hw := hv.trans_le hvw
  have hprod := hx.mul hv
  rcases le_cases hx h with rfl | ⟨p, q, rfl, rfl, hp, hpq⟩
  · have htop : Fp.mul (inf false) (fin w) = inf false := by
      rw [Fp.mul, if_neg hw.ne', decide_eq_false (not_lt.mpr hw.le)]
      rfl
    rw [htop]
    exact le_inf (ne_nan hprod)
  · exact ofRat_mono (mul_le_mul hpq hvw hv.le (hp.trans hpq))

theorem sub_ne_nan (h : x ≠ nan) (q : ℚ) : sub x (fin q) ≠ nan := by
  cases x with
  | nan => exact absurd rfl h
  | inf n => simp [sub, neg, add]
  | fin p => exact ofRat_ne_nan _

theorem sub_mono {w : ℚ} (h : le x y) : le (sub x (fin w)) (sub y (fin w)) := by
  have hsub := sub_ne_nan (ne_nan h) w
  cases x with
  | nan => cases h
  | inf m =>
    cases m
    · rw [eq_inf_of_le h]
      rfl
    · exact inf_le hsub
  | fin p =>
    cases y with
    | nan => cases h
    | inf n =>
      cases n
      · exact le_inf (ofRat_ne_nan _)
      · cases h
    | fin q => exact ofRat_mono (add_le_add_left (le_fin.mp h) _)

theorem abs_eq_of_nonneg (hx : x.Nonneg) : x.abs = x := by
  rcases nonneg_cases hx with rfl | ⟨q, rfl, hq⟩
  · rfl
  · exact congrArg fin (abs_eq_self.mpr hq)

/-- Below zero the smaller number is the larger in size. -/
theorem abs_anti (h : le y x) (hx : le x (fin 0)) : le x.abs y.abs := by
  cases x with
  | nan => cases hx
  | inf m =>
    cases m
    · cases hx
    · cases y with
      | nan => cases h
      | inf n => rfl
      | fin q => cases h
  | fin p =>
    cases y with
    | nan => cases h
    | inf n => rfl
    | fin q =>
      have hp := le_fin.mp hx
      have hqp := le_fin.mp h
      refine le_fin.mpr ?_
      rw [abs_of_nonpos hp, abs_of_nonpos (hqp.trans hp)]
      exact neg_le_neg hqp

theorem Nonneg.div {w : ℚ} (hx : x.Nonneg) (hw : 0 < w) : (Fp.div x (fin w)).Nonneg := by
  rcases nonneg_cases hx with rfl | ⟨p, rfl, hp⟩
  · rw [Fp.div, decide_eq_false (not_lt.mpr hw.le)]
    rfl
  · rw [Fp.div, if_neg hw.ne']
    exact ofRat_nonneg (div_nonneg hp hw.le)

theorem Nonneg.div_mono {w : ℚ} (hx : x.Nonneg) (h : le x y) (hw : 0 < w) :
    le (Fp.div x (fin w)) (Fp.div y (fin w)) := by
  have hquot := hx.div hw
  rcases le_cases hx h with rfl | ⟨p, q, rfl, rfl, hp, hpq⟩
  · have htop : Fp.div (inf false) (fin w) = inf false := by
      rw [Fp.div, decide_eq_false (not_lt.mpr hw.le)]
      rfl
    rw [htop]
    exact le_inf (ne_nan hquot)
  · rw [Fp.div, Fp.div, if_neg hw.ne', if_neg hw.ne']
    exact ofRat_mono (div_le_div_of_nonneg_right hpq hw.le)

/-- A maximum with a number is no NaN. -/
theorem le_max (x : Fp) (w : ℚ) : le (fin w) (max x (fin w)) := by
  cases x with
  | nan => exact le_fin.mpr le_rfl
  | inf n =>
    cases n
    · rfl
    · exact le_fin.mpr le_rfl
  | fin q =>
    simp only [max, lt, decide_eq_true_eq]
    split_ifs with h
    · exact le_fin.mpr le_rfl
    · exact le_fin.mpr (not_lt.mp h)

theorem max_mono {w : ℚ} (h : le x y) : le (max x (fin w)) (max y (fin w)) := by
  have hy := le_max y w
  cases x with
  | nan => exact hy
  | inf m =>
    cases m
    · rw [eq_inf_of_le h]
      rfl
    · exact hy
  | fin p =>
    simp only [max, lt, decide_eq_true_eq]
    split_ifs with hlt
    · exact hy
    · cases y with
      | nan => cases h
      | inf n =>
        cases n
        · rfl
        · cases h
      | fin q =>
        have hpq := le_fin.mp h
        simp only [decide_eq_true_eq]
        rw [if_neg (not_lt.mpr ((not_lt.mp hlt).trans hpq))]
        exact h

theorem min_between {v w : ℚ} (h : le (fin v) x) (hv : v ≤ w) :
    ∃ f, min x (fin w) = fin f ∧ v ≤ f ∧ f ≤ w := by
  cases x with
  | nan => cases h
  | inf n =>
    cases n
    · exact ⟨w, rfl, hv, le_rfl⟩
    · cases h
  | fin q =>
    simp only [min, lt, decide_eq_true_eq]
    split_ifs with hlt
    · exact ⟨w, rfl, hv, le_rfl⟩
    · exact ⟨q, rfl, le_fin.mp h, not_lt.mp hlt⟩

theorem min_mono {w : ℚ} (hx : x.Nonneg) (h : le x y) : le (min x (fin w)) (min y (fin w)) := by
  rcases le_cases hx h with rfl | ⟨p, q, rfl, rfl, -, hpq⟩
  · rcases nonneg_cases hx with rfl | ⟨p, rfl, -⟩
    · exact le_fin.mpr le_rfl
    · simp only [min, lt, decide_eq_true_eq]
      split_ifs with hlt
      · exact le_fin.mpr le_rfl
      · exact le_fin.mpr (not_lt.mp hlt)
  · simp only [min, lt, decide_eq_true_eq]
    split_ifs with h1 h2 h2
    · exact le_fin.mpr le_rfl
    · exact absurd (h1.trans_le hpq) h2
    · exact le_fin.mpr (not_lt.mp h1)
    · exact le_fin.mpr hpq

theorem one_le_ofRat {n : ℕ} (h : 0 < n) : le (fin 1) (ofRat n) := by
  have hcast : ((1 : ℤ) : ℚ) ≤ n := by exact_mod_cast h
  have hmono := ofRat_mono hcast
  rw [ofRat_int (by norm_num), Int.cast_one] at hmono
  exact hmono

/-- A weight between 1/4 and 4 is a positive number after its rounding. -/
theorem ofRat_pos {q : ℚ} (hlow : 1 / 4 ≤ q) (hhigh : q ≤ 4) : ∃ w, ofRat q = fin w ∧ 0 < w := by
  have hwide : |q| ≤ 2 ^ (52 - 2) := by
    rw [abs_of_nonneg (by linarith)]
    norm_num
    linarith
  have hle : |q| ≤ 2 ^ 52 := hwide.trans (by norm_num)
  refine ⟨rnd q, ofRat_of_le hle, ?_⟩
  have hrnd := le_rnd_dyadic (k := 2) (n := 1) (by norm_num) hwide (by norm_num; linarith)
  norm_num at hrnd
  linarith

end Fp

end Flowlab.Framework.Rounding
