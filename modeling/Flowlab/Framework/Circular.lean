import Mathlib.Data.Nat.ModEq
import Mathlib.Data.List.Basic

namespace Flowlab.Framework

variable {α : Type}

/-- The items of `xs` with the addresses they take in a region of `cap` cells at `base`, from cell
`start` on: one block, or two when the region ends before the items do. -/
def wrapped (base cap start : Nat) (xs : List α) : List (α × Nat) :=
  if start + xs.length ≤ cap then
    xs.zipIdx (base + start)
  else
    (xs.take (cap - start)).zipIdx (base + start) ++ (xs.drop (cap - start)).zipIdx base

theorem mem_wrapped_flat {base cap start : Nat} {xs : List α} {x : α} {a : Nat}
    (hfit : start + xs.length ≤ cap) :
    (x, a) ∈ xs.zipIdx (base + start) ↔
      ∃ j, xs[j]? = some x ∧ a = base + (start + j) % cap := by
  rw [List.mk_mem_zipIdx_iff_le_and_getElem?_sub]
  constructor
  · intro hcell
    obtain ⟨hle, hx⟩ := hcell
    refine ⟨a - (base + start), hx, ?_⟩
    have hlt := (List.getElem?_eq_some_iff.mp hx).1
    rw [Nat.mod_eq_of_lt (by omega)]
    omega
  · intro hcell
    obtain ⟨j, hx, rfl⟩ := hcell
    have hlt := (List.getElem?_eq_some_iff.mp hx).1
    rw [Nat.mod_eq_of_lt (by omega)]
    refine ⟨by omega, ?_⟩
    rw [show base + (start + j) - (base + start) = j by omega]
    exact hx

theorem mem_wrapped_split {base cap start : Nat} {xs : List α} {x : α} {a : Nat}
    (hs : start < cap) (hlen : xs.length ≤ cap) :
    (x, a) ∈ (xs.take (cap - start)).zipIdx (base + start) ++ (xs.drop (cap - start)).zipIdx base ↔
      ∃ j, xs[j]? = some x ∧ a = base + (start + j) % cap := by
  rw [List.mem_append, List.mk_mem_zipIdx_iff_le_and_getElem?_sub,
    List.mk_mem_zipIdx_iff_le_and_getElem?_sub, List.getElem?_take, List.getElem?_drop]
  constructor
  · intro hcell
    rcases hcell with ⟨hle, hx⟩ | ⟨hle, hx⟩
    · split_ifs at hx with hlt
      refine ⟨a - (base + start), hx, ?_⟩
      rw [Nat.mod_eq_of_lt (by omega)]
      omega
    · refine ⟨cap - start + (a - base), hx, ?_⟩
      have hlt := (List.getElem?_eq_some_iff.mp hx).1
      rw [show start + (cap - start + (a - base)) = cap + (a - base) by omega,
        Nat.add_mod_left, Nat.mod_eq_of_lt (by omega)]
      omega
  · intro hcell
    obtain ⟨j, hx, rfl⟩ := hcell
    have hlt := (List.getElem?_eq_some_iff.mp hx).1
    rcases Nat.lt_or_ge (start + j) cap with hj | hj
    · left
      rw [Nat.mod_eq_of_lt hj, show base + (start + j) - (base + start) = j by omega,
        if_pos (by omega)]
      exact ⟨by omega, hx⟩
    · right
      rw [Nat.mod_eq_sub_mod hj, Nat.mod_eq_of_lt (by omega),
        show cap - start + (base + (start + j - cap) - base) = j by omega]
      exact ⟨by omega, hx⟩

/-- Split or not, the item at position `j` takes the cell `(start + j) % cap`. -/
theorem mem_wrapped {base cap start : Nat} {xs : List α} {x : α} {a : Nat}
    (hs : start < cap) (hlen : xs.length ≤ cap) :
    (x, a) ∈ wrapped base cap start xs ↔ ∃ j, xs[j]? = some x ∧ a = base + (start + j) % cap := by
  simp only [wrapped]
  split_ifs with hfit
  · exact mem_wrapped_flat hfit
  · exact mem_wrapped_split hs hlen

/-- Positions less than `cap` apart take different cells. -/
theorem mod_ne_of_window {cap i j : Nat} (hij : i < j) (hj : j < i + cap) : i % cap ≠ j % cap := by
  intro h
  have hdvd : cap ∣ j - i := (Nat.modEq_iff_dvd' (by omega)).mp h
  have hle := Nat.le_of_dvd (by omega) hdvd
  omega

end Flowlab.Framework
