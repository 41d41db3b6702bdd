import Mathlib.Tactic

namespace Flowlab.Framework.ShiftRegister

variable {w n : Nat}

/-- One step of a register that shifts to the right and feeds the bit it loses back through `poly`. -/
def shift (poly c : BitVec w) : BitVec w :=
  if c.getLsbD 0 then poly ^^^ (c >>> 1) else c >>> 1

/-- Take in a symbol of `n` bits. -/
def feed (poly : BitVec w) (c : BitVec w) (x : BitVec n) : BitVec w :=
  (shift poly)^[n] (c ^^^ x.setWidth w)

/-- One step of the register on a bit of the stream: the bit it loses meets the bit that comes. -/
def shiftIn (poly c : BitVec w) (b : Bool) : BitVec w :=
  if c.getLsbD 0 != b then poly ^^^ (c >>> 1) else c >>> 1

/-- A run of symbols as one word, the first one lowest. -/
def pack (w : Nat) : List (BitVec n) → BitVec w
  | [] => 0
  | x :: xs => x.setWidth w ^^^ (pack w xs <<< n)

/-- The bits of a symbol, the lowest first. -/
def bits (x : BitVec n) : List Bool := (List.range n).map x.getLsbD

section

variable (poly : BitVec w)

theorem shift_xor (a b : BitVec w) : shift poly (a ^^^ b) = shift poly a ^^^ shift poly b := by
  have hcancel (x y : BitVec w) : x ^^^ y = poly ^^^ x ^^^ (poly ^^^ y) := by
    rw [BitVec.xor_comm poly x, BitVec.xor_assoc, ← BitVec.xor_assoc poly poly, BitVec.xor_self,
      BitVec.zero_xor]
  simp only [shift, BitVec.getLsbD_xor, BitVec.ushiftRight_xor_distrib]
  cases a.getLsbD 0 <;> cases b.getLsbD 0 <;> simp
  · rw [← BitVec.xor_assoc, ← BitVec.xor_assoc, BitVec.xor_comm poly]
  · rw [BitVec.xor_assoc]
  · exact hcancel _ _

theorem iterate_xor (k : Nat) (a b : BitVec w) :
    (shift poly)^[k] (a ^^^ b) = (shift poly)^[k] a ^^^ (shift poly)^[k] b := by
  induction k generalizing a b with
  | zero => rfl
  | succ k ih => rw [Function.iterate_succ_apply, shift_xor, ih, ← Function.iterate_succ_apply,
      ← Function.iterate_succ_apply]

/-- Nothing but zero shifts to zero: the top bit of `poly` tells whether it was fed back. -/
theorem eq_zero_of_shift (hpoly : poly.msb = true) {c : BitVec w} (h : shift poly c = 0#w) :
    c = 0#w := by
  rw [shift] at h
  split_ifs at h with hlow
  · have heq : poly = c >>> 1 := BitVec.xor_eq_zero_iff.mp h
    have htop : (c >>> 1).msb = false := by
      rw [BitVec.msb_eq_getLsbD_last, BitVec.getLsbD_ushiftRight]
      exact BitVec.getLsbD_of_ge c _ (by omega)
    rw [heq, htop] at hpoly
    exact absurd hpoly (by decide)
  · apply BitVec.eq_of_getLsbD_eq
    intro i hi
    rw [BitVec.getLsbD_zero]
    cases i with
    | zero => simpa using hlow
    | succ i =>
      have hbit := congrArg (fun x => BitVec.getLsbD x i) h
      simpa [Nat.add_comm 1] using hbit

theorem shift_injective (hpoly : poly.msb = true) : Function.Injective (shift poly) := by
  intro a b hab
  have hzero : shift poly (a ^^^ b) = 0#w := by rw [shift_xor, hab, BitVec.xor_self]
  exact BitVec.xor_eq_zero_iff.mp (eq_zero_of_shift poly hpoly hzero)

/-- Bits that are clear leave without a trace. -/
theorem iterate_clear {k : Nat} {c : BitVec w} (h : ∀ i < k, c.getLsbD i = false) :
    (shift poly)^[k] c = c >>> k := by
  induction k with
  | zero => simp
  | succ k ih =>
    have hlow : (c >>> k).getLsbD 0 = false := by simpa using h k (Nat.lt_succ_self k)
    rw [Function.iterate_succ_apply', ih (fun i hi => h i (by omega)), shift, hlow,
      BitVec.shiftRight_add]
    rfl

/-- The low bits go through the register, and the others move down: what a table of the low bits is
for. -/
theorem iterate_split (k : Nat) (c : BitVec w) :
    (shift poly)^[k] c = (shift poly)^[k] ((c.setWidth k).setWidth w) ^^^ (c >>> k) := by
  have hsplit : c = (c.setWidth k).setWidth w ^^^ (c >>> k <<< k) := by
    apply BitVec.eq_of_getLsbD_eq
    intro i hi
    by_cases hk : i < k
    · simp [hi, hk]
    · simp [hi, hk, Nat.add_sub_cancel' (Nat.le_of_not_lt hk)]
  have hclear : ∀ i < k, (c >>> k <<< k).getLsbD i = false := by
    intro i hi
    simp [hi]
  have hdown : c >>> k <<< k >>> k = c >>> k := by
    apply BitVec.eq_of_getLsbD_eq
    intro i hi
    by_cases hik : k + i < w
    · simp [hik]
    · simp [hik, BitVec.getLsbD_of_ge c (k + i) (by omega)]
  conv_lhs => rw [hsplit]
  rw [iterate_xor, iterate_clear poly hclear, hdown]

end

/-- A run of symbols leaves the bits above it clear. -/
theorem pack_clear {xs : List (BitVec n)} {i : Nat} (h : n * xs.length ≤ i) :
    (pack w xs).getLsbD i = false := by
  induction xs generalizing i with
  | nil => simp [pack]
  | cons x xs ih =>
    rw [List.length_cons, Nat.mul_succ] at h
    have hx : x.getLsbD i = false := BitVec.getLsbD_of_ge x i (by omega)
    have hxs : (pack w xs).getLsbD (i - n) = false := ih (by omega)
    simp [pack, hx, hxs]

theorem pack_shift {xs : List (BitVec n)} (h : n * xs.length + n ≤ w) :
    pack w xs <<< n >>> n = pack w xs := by
  apply BitVec.eq_of_getLsbD_eq
  intro i hi
  rw [BitVec.getLsbD_ushiftRight, BitVec.getLsbD_shiftLeft, Nat.add_sub_cancel_left]
  by_cases hin : n + i < w
  · simp [hin]
  · rw [pack_clear (i := i) (by omega), Bool.and_false]

/-- The word of a run tells its symbols. -/
theorem pack_injective {xs ys : List (BitVec n)} (hlen : xs.length = ys.length)
    (hfit : n * xs.length ≤ w) (h : pack w xs = pack w ys) : xs = ys := by
  induction xs generalizing ys with
  | nil => exact (List.eq_nil_of_length_eq_zero hlen.symm).symm
  | cons x xs ih =>
    obtain ⟨y, ys, rfl⟩ := List.exists_cons_of_length_pos (by rw [← hlen]; simp : 0 < ys.length)
    rw [List.length_cons, List.length_cons, Nat.add_right_cancel_iff] at hlen
    rw [List.length_cons, Nat.mul_succ] at hfit
    rw [pack, pack] at h
    have hbit (i : Nat) := congrArg (fun c => BitVec.getLsbD c i) h
    have hhead : x = y := by
      apply BitVec.eq_of_getLsbD_eq
      intro i hi
      simpa [hi, show i < w by omega] using hbit i
    subst hhead
    have htail : pack w xs = pack w ys := by
      have heq := (BitVec.xor_right_inj _).mp h
      have hdown := congrArg (fun c : BitVec w => c >>> n) heq
      have hfit' : n * ys.length + n ≤ w := by rw [← hlen]; exact hfit
      rwa [pack_shift hfit, pack_shift hfit'] at hdown
    rw [ih hlen (by omega) htail]

theorem pack_bit {xs : List Bool} {i : Nat} (hi : i < w) :
    (pack w (xs.map BitVec.ofBool)).getLsbD i = xs.getD i false := by
  induction xs generalizing i with
  | nil => simp [pack]
  | cons b xs ih =>
    rw [List.map_cons, pack, BitVec.getLsbD_xor, BitVec.getLsbD_setWidth, BitVec.getLsbD_shiftLeft]
    cases i with
    | zero => simp [hi]
    | succ i =>
      have hhigh : (BitVec.ofBool b).getLsbD (i + 1) = false := BitVec.getLsbD_of_ge _ _ (by omega)
      rw [hhigh, ih (by omega), List.getD_cons_succ]
      simp [hi]

/-- A symbol is the word of its bits. -/
theorem pack_bits (x : BitVec n) : pack w ((bits x).map BitVec.ofBool) = x.setWidth w := by
  apply BitVec.eq_of_getLsbD_eq
  intro i hi
  rw [pack_bit hi, BitVec.getLsbD_setWidth, decide_eq_true hi, Bool.true_and, bits,
    List.getD_eq_getElem?_getD, List.getElem?_map]
  by_cases hin : i < n
  · rw [List.getElem?_range hin]
    rfl
  · rw [List.getElem?_eq_none (by simpa using hin), BitVec.getLsbD_of_ge x i (by omega)]
    rfl

section

variable (poly : BitVec w)

/-- Shifting a run of symbols in is shifting their word in. -/
theorem foldl_feed {xs : List (BitVec n)} (hfit : n * xs.length ≤ w) (c : BitVec w) :
    xs.foldl (feed poly) c = (shift poly)^[n * xs.length] (c ^^^ pack w xs) := by
  induction xs generalizing c with
  | nil => simp [pack]
  | cons x xs ih =>
    rw [List.length_cons, Nat.mul_succ] at hfit ⊢
    have hclear : ∀ i < n, (pack w xs <<< n).getLsbD i = false := by
      intro i hi
      simp [hi]
    have hup : pack w xs = (shift poly)^[n] (pack w xs <<< n) := by
      rw [iterate_clear poly hclear, pack_shift hfit]
    calc (x :: xs).foldl (feed poly) c
        = (shift poly)^[n * xs.length] (feed poly c x ^^^ pack w xs) := ih (by omega) _
      _ = (shift poly)^[n * xs.length] ((shift poly)^[n] (c ^^^ x.setWidth w ^^^ pack w xs <<< n)) := by
        rw [iterate_xor poly n, ← hup]
        rfl
      _ = (shift poly)^[n * xs.length + n] (c ^^^ pack w (x :: xs)) := by
        rw [Function.iterate_add_apply, pack, BitVec.xor_assoc]

theorem shiftIn_eq (c : BitVec w) (b : Bool) :
    shiftIn poly c b = feed poly c (BitVec.ofBool b) := by
  obtain rfl | hw := Nat.eq_zero_or_pos w
  · exact BitVec.eq_of_zero_length rfl
  have hlow : (c ^^^ (BitVec.ofBool b).setWidth w).getLsbD 0 = (c.getLsbD 0 != b) := by
    simp [hw]
  have hdown : (c ^^^ (BitVec.ofBool b).setWidth w) >>> 1 = c >>> 1 := by
    apply BitVec.eq_of_getLsbD_eq
    intro i hi
    simp
  show _ = shift poly (c ^^^ (BitVec.ofBool b).setWidth w)
  rw [shift, hlow, hdown]
  rfl

/-- A symbol goes in as its bits do, one after the other. -/
theorem feed_bits (hfit : n ≤ w) (c : BitVec w) (x : BitVec n) :
    feed poly c x = (bits x).foldl (shiftIn poly) c := by
  have hlen : (bits x).length = n := by simp [bits]
  have hbit : shiftIn poly = fun c b => feed poly c (BitVec.ofBool b) := by
    funext c b
    exact shiftIn_eq poly c b
  have hfit' : 1 * ((bits x).map BitVec.ofBool).length ≤ w := by
    rwa [List.length_map, hlen, Nat.one_mul]
  have hword := foldl_feed poly hfit' c
  rw [List.foldl_map, List.length_map, hlen, pack_bits, Nat.one_mul] at hword
  rw [hbit, hword]
  rfl

/-- A stream of symbols goes in as the stream of their bits. -/
theorem foldl_feed_bits (hfit : n ≤ w) (xs : List (BitVec n)) (c : BitVec w) :
    xs.foldl (feed poly) c = (xs.flatMap bits).foldl (shiftIn poly) c := by
  induction xs generalizing c with
  | nil => rfl
  | cons x xs ih =>
    rw [List.foldl_cons, ih, feed_bits poly hfit, List.flatMap_cons, List.foldl_append]

theorem foldl_feed_injective (hpoly : poly.msb = true) (xs : List (BitVec n)) :
    Function.Injective (xs.foldl (feed poly)) := by
  induction xs with
  | nil => exact fun _ _ h => h
  | cons x xs ih =>
    intro a b hab
    have hfeed := (shift_injective poly hpoly).iterate n (ih hab)
    exact (BitVec.xor_left_inj _).mp hfeed

/-- Two streams that differ in a run of symbols no longer than the register leave it in different
states, whatever comes before and after. -/
theorem feed_burst (hpoly : poly.msb = true) {xs ys : List (BitVec n)}
    (hlen : xs.length = ys.length) (hfit : n * xs.length ≤ w) (hne : xs ≠ ys)
    (pre post : List (BitVec n)) (c : BitVec w) :
    (pre ++ (xs ++ post)).foldl (feed poly) c ≠ (pre ++ (ys ++ post)).foldl (feed poly) c := by
  intro h
  simp only [List.foldl_append] at h
  have hmid := foldl_feed_injective poly hpoly post h
  have hfit' : n * ys.length ≤ w := by rw [← hlen]; exact hfit
  rw [foldl_feed poly hfit, foldl_feed poly hfit', ← hlen] at hmid
  have hword := (shift_injective poly hpoly).iterate _ hmid
  exact hne (pack_injective hlen hfit ((BitVec.xor_right_inj _).mp hword))

end

end Flowlab.Framework.ShiftRegister
