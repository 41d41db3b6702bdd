import Mathlib.Tactic

namespace Flowlab.Framework.Bisection

/-- Half-interval search in `[lo, hi)` for the first index at which `p` fails.
Each round at least halves the interval, so `hi - lo` rounds always suffice. -/
def bisect (p : Nat → Bool) : Nat → Nat → Nat → Nat
  | 0, lo, _ => lo
  | fuel + 1, lo, hi =>
    if lo < hi then
      let mid := lo + (hi - lo) / 2
      if p mid then bisect p fuel (mid + 1) hi else bisect p fuel lo mid
    else lo

/-- Where `p` holds exactly below `m`, the search ends at `m`. -/
theorem bisect_eq (p : Nat → Bool) (m fuel lo hi : Nat) (hlo : lo ≤ m) (hhi : m ≤ hi)
    (hp : ∀ i, i < hi → (p i = true ↔ i < m)) (hf : hi - lo ≤ fuel) :
    bisect p fuel lo hi = m := by
  induction fuel generalizing lo hi with
  | zero => simp only [bisect]; omega
  | succ fuel ih =>
    simp only [bisect]
    split_ifs with hlt hmid
    · have hm := (hp _ (by omega)).mp hmid
      exact ih _ _ (by omega) hhi hp (by omega)
    · have hm : ¬ lo + (hi - lo) / 2 < m := fun h => hmid ((hp _ (by omega)).mpr h)
      refine ih _ _ hlo (by omega) ?_ (by omega)
      intro i hi'
      exact hp i (by omega)
    · omega

end Flowlab.Framework.Bisection
