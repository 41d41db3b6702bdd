import Flowlab.Chaos.OrderTracker

namespace Flowlab.Engine

open Flowlab.Chaos (satAdd64 satAdd64_toNat)

/-- The histogram of apply latencies, in nanoseconds. -/
structure ApplyHisto where
  bins : Vector UInt64 192

namespace ApplyHisto

def new : ApplyHisto := ⟨.replicate 192 0⟩

def count (h : ApplyHisto) (b : Fin 192) : UInt64 := h.bins[b.val]

def bump (h : ApplyHisto) (b : Fin 192) : ApplyHisto := ⟨h.bins.set b (satAdd64 (h.count b) 1)⟩

/-- The bin of a latency that is not 0; the product wraps, as a release build has it. -/
def binOf (ns : UInt64) : Fin 192 :=
  let lg := min (Nat.log2 ns.toNat) 23
  let span := UInt64.ofNat (2 ^ lg)
  let frac := if span > 0 then (ns - span) * 8 / span else 0
  ⟨min (lg * 8 + frac.toNat) 191, by omega⟩

def record (h : ApplyHisto) (ns : UInt64) : ApplyHisto :=
  if ns = 0 then h.bump 0 else h.bump (binOf ns)

theorem count_new (b : Fin 192) : new.count b = 0 := by
  simp [new, count]

theorem count_bump (h : ApplyHisto) (b c : Fin 192) :
    (h.bump b).count c = if b = c then satAdd64 (h.count b) 1 else h.count c := by
  simp only [bump, count, Vector.getElem_set, Fin.ext_iff]

/-- Eight times the lower edge of a bin: eight bins to each power of two. -/
def edge (b : Nat) : Nat := 2 ^ (b / 8) * (8 + b % 8)

/-- A latency belongs in a bin; 0 goes to the first one, and the last one has no upper edge. -/
def InBin (b ns : Nat) : Prop :=
  b = 0 ∧ ns = 0 ∨ edge b ≤ 8 * ns ∧ (b < 191 → 8 * ns < edge (b + 1))

instance (b ns : Nat) : Decidable (InBin b ns) :=
  inferInstanceAs (Decidable (_ ∨ _))

theorem edge_of {lg part : Nat} (h : part < 8) : edge (lg * 8 + part) = 2 ^ lg * (8 + part) := by
  have hdiv : (lg * 8 + part) / 8 = lg := by omega
  have hmod : (lg * 8 + part) % 8 = part := by omega
  rw [edge, hdiv, hmod]

theorem edge_succ {lg part : Nat} (h : part < 8) :
    edge (lg * 8 + part + 1) = 2 ^ lg * (9 + part) := by
  by_cases hlast : part = 7
  · have hnext : lg * 8 + part + 1 = (lg + 1) * 8 + 0 := by omega
    rw [hnext, edge_of (by norm_num), hlast]
    ring
  · have hnext : lg * 8 + part + 1 = lg * 8 + (part + 1) := by omega
    rw [hnext, edge_of (by omega)]
    ring

theorem edge_strictMono : StrictMono edge := by
  refine strictMono_nat_of_lt_succ fun b => ?_
  have hpart : b % 8 < 8 := Nat.mod_lt b (by norm_num)
  have hsplit : b / 8 * 8 + b % 8 = b := Nat.div_add_mod' b 8
  have hthis : edge (b / 8 * 8 + b % 8) = 2 ^ (b / 8) * (8 + b % 8) := edge_of hpart
  have hnext : edge (b / 8 * 8 + b % 8 + 1) = 2 ^ (b / 8) * (9 + b % 8) := edge_succ hpart
  rw [hsplit] at hthis hnext
  rw [hthis, hnext]
  exact Nat.mul_lt_mul_of_pos_left (by omega) (by positivity)

theorem edge_pos (b : Nat) : 8 ≤ edge b :=
  edge_strictMono.monotone (Nat.zero_le b)

theorem InBin.not_lt {b c ns : Nat} (hb : InBin b ns) (hc : InBin c ns) (hlast : c ≤ 191) :
    ¬ b < c := by
  intro hlt
  have hstep : edge (b + 1) ≤ edge c := edge_strictMono.monotone hlt
  have hpos := edge_pos c
  rcases hc with ⟨rfl, -⟩ | ⟨hlower, -⟩
  · omega
  rcases hb with ⟨-, rfl⟩ | ⟨-, hupper⟩
  · omega
  · have hbelow := hupper (by omega)
    omega

/-- A latency has at most one bin. -/
theorem InBin.unique {b c : Fin 192} {ns : Nat} (hb : InBin b ns) (hc : InBin c ns) : b = c := by
  have hle := hb.not_lt hc (by omega)
  have hge := hc.not_lt hb (by omega)
  exact Fin.ext (by omega)

/-- The eighth of its power of two that a latency lies in. -/
theorem eighth_bounds {lg ns : Nat} (h : 2 ^ lg ≤ ns) :
    2 ^ lg * (8 + (ns - 2 ^ lg) * 8 / 2 ^ lg) ≤ 8 * ns ∧
      8 * ns < 2 ^ lg * (9 + (ns - 2 ^ lg) * 8 / 2 ^ lg) := by
  have hdiv := Nat.div_add_mod ((ns - 2 ^ lg) * 8) (2 ^ lg)
  have hmod := Nat.mod_lt ((ns - 2 ^ lg) * 8) (show 0 < 2 ^ lg by positivity)
  generalize (ns - 2 ^ lg) * 8 / 2 ^ lg = part at hdiv ⊢
  rw [mul_add, mul_add]
  omega

theorem binOf_val {ns : UInt64} (hroom : ns.toNat < 2 ^ 61) {lg : Nat}
    (hlg : min (Nat.log2 ns.toNat) 23 = lg) (hspan : 2 ^ lg ≤ ns.toNat) :
    (binOf ns).val = min (lg * 8 + (ns.toNat - 2 ^ lg) * 8 / 2 ^ lg) 191 := by
  have hspan_val : (UInt64.ofNat (2 ^ lg)).toNat = 2 ^ lg := by
    rw [UInt64.toNat_ofNat', Nat.mod_eq_of_lt (by omega)]
  have hpos : UInt64.ofNat (2 ^ lg) > 0 := by
    rw [gt_iff_lt, UInt64.lt_iff_toNat_lt, hspan_val]
    simp
  have hle : UInt64.ofNat (2 ^ lg) ≤ ns := by
    rw [UInt64.le_iff_toNat_le, hspan_val]
    exact hspan
  have hfrac : ((ns - UInt64.ofNat (2 ^ lg)) * 8 / UInt64.ofNat (2 ^ lg)).toNat =
      (ns.toNat - 2 ^ lg) * 8 / 2 ^ lg := by
    have hprod : (ns.toNat - 2 ^ lg) * (8 : UInt64).toNat < 2 ^ 64 := by
      rw [show (8 : UInt64).toNat = 8 from rfl]
      omega
    rw [UInt64.toNat_div, UInt64.toNat_mul, UInt64.toNat_sub_of_le _ _ hle, hspan_val,
      Nat.mod_eq_of_lt hprod]
    rfl
  simp only [binOf, hlg, if_pos hpos, hfrac]

theorem binOf_spec {ns : UInt64} (hsome : ns ≠ 0) (hroom : ns.toNat < 2 ^ 61) :
    InBin (binOf ns) ns.toNat := by
  have hpos : ns.toNat ≠ 0 := fun hz => hsome (UInt64.toNat_inj.mp hz)
  have hlow := Nat.log2_self_le hpos
  have hhigh : ns.toNat < 2 ^ (Nat.log2 ns.toNat + 1) := Nat.lt_log2_self
  by_cases hbig : Nat.log2 ns.toNat ≤ 23
  · have hbounds := eighth_bounds hlow
    have hpart : (ns.toNat - 2 ^ Nat.log2 ns.toNat) * 8 / 2 ^ Nat.log2 ns.toNat < 8 := by
      rw [Nat.div_lt_iff_lt_mul (by positivity)]
      rw [pow_succ] at hhigh
      omega
    have hval := binOf_val hroom (min_eq_left hbig) hlow
    rw [min_eq_left (by omega)] at hval
    rw [hval]
    refine .inr ⟨?_, fun _ => ?_⟩
    · rw [edge_of hpart]
      exact hbounds.1
    · rw [edge_succ hpart]
      exact hbounds.2
  · have hcap : 2 ^ 24 ≤ ns.toNat := (Nat.pow_le_pow_right two_pos (by omega)).trans hlow
    have hval := binOf_val hroom (min_eq_right (by omega)) (by omega)
    have hlast : (binOf ns).val = 191 := by
      rw [hval]
      omega
    rw [hlast]
    have hedge : edge 191 = 2 ^ 23 * 15 := rfl
    exact .inr ⟨by omega, fun h => absurd h (lt_irrefl 191)⟩

theorem record_own (h : ApplyHisto) {ns : UInt64} (hroom : ns.toNat < 2 ^ 61) :
    ∃ own : Fin 192, h.record ns = h.bump own ∧ InBin own ns.toNat := by
  by_cases hzero : ns = 0
  · exact ⟨0, by rw [record, if_pos hzero], .inl ⟨rfl, by rw [hzero]; rfl⟩⟩
  · exact ⟨binOf ns, by rw [record, if_neg hzero], binOf_spec hzero hroom⟩

/-- One latency counts once, in its own bin. -/
theorem count_record (h : ApplyHisto) {ns : UInt64} (hroom : ns.toNat < 2 ^ 61) (b : Fin 192) :
    (h.record ns).count b =
      if InBin b ns.toNat then satAdd64 (h.count b) 1 else h.count b := by
  obtain ⟨own, hrecord, hin⟩ := h.record_own hroom
  rw [hrecord, count_bump]
  by_cases heq : own = b
  · rw [if_pos heq, if_pos (heq ▸ hin), heq]
  · rw [if_neg heq, if_neg fun hb => heq (hin.unique hb)]

theorem count_run (samples : List UInt64) (hroom : ∀ ns ∈ samples, ns.toNat < 2 ^ 61)
    (b : Fin 192) :
    ((samples.foldl record new).count b).toNat =
      min (samples.countP fun ns => InBin b ns.toNat) (2 ^ 64 - 1) := by
  induction samples using List.reverseRecOn with
  | nil => simp [count_new]
  | append_singleton samples ns ih =>
    have hbefore := ih fun x hx => hroom x (List.mem_append_left _ hx)
    have hlast := count_record (samples.foldl record new) (hroom ns (by simp)) b
    rw [List.foldl_append, List.foldl_cons, List.foldl_nil, hlast, List.countP_append,
      List.countP_singleton]
    by_cases hin : InBin b ns.toNat
    · rw [if_pos hin, satAdd64_toNat, hbefore]
      simp only [hin, decide_true, if_true]
      have hone : (1 : UInt64).toNat = 1 := rfl
      omega
    · rw [if_neg hin, hbefore]
      simp only [hin, decide_false, Bool.false_eq_true, if_false, add_zero]

/-- **The histogram counts every latency once.** After any run of latencies below 2^61 ns, which
keeps the product from wrapping, each of them belongs in exactly one bin, and each bin holds the
number of those that belong in it, or the largest count that fits. -/
theorem histo_counts (samples : List UInt64) (hroom : ∀ ns ∈ samples, ns.toNat < 2 ^ 61) :
    (∀ ns ∈ samples, ∃! b : Fin 192, InBin b ns.toNat) ∧
    ∀ b : Fin 192, ((samples.foldl record new).count b).toNat =
      min (samples.countP fun ns => InBin b ns.toNat) (2 ^ 64 - 1) := by
  refine ⟨?_, fun b => count_run samples hroom b⟩
  intro ns hmem
  obtain ⟨own, -, hin⟩ := new.record_own (hroom ns hmem)
  exact ⟨own, hin, fun b hb => hb.unique hin⟩

theorem histo_counts_three :
    (∀ ns ∈ [0, 1, 100], ∃! b : Fin 192, InBin b (ns : UInt64).toNat) ∧
    ∀ b : Fin 192, (([0, 1, 100].foldl record new).count b).toNat =
      min ([0, 1, 100].countP fun ns : UInt64 => InBin b ns.toNat) (2 ^ 64 - 1) :=
  histo_counts [0, 1, 100] (by simp)

end ApplyHisto

end Flowlab.Engine
