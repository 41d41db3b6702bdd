import Mathlib.Tactic

namespace Flowlab.Framework

/-- A program that reads the cells of a memory one at a time and can see nothing else of it. -/
inductive Access (ι β α : Type) where
  | done (a : α)
  | read (i : ι) (next : β → Access ι β α)

namespace Access

variable {ι β α γ : Type}

def bind : Access ι β α → (α → Access ι β γ) → Access ι β γ
  | done a, f => f a
  | read i next, f => read i (fun b => bind (next b) f)

instance : Monad (Access ι β) where
  pure := done
  bind := bind

/-- `p[i]`. -/
def cell (i : ι) : Access ι β β := read i done

/-- What the program returns on the memory `mem`. -/
def value (mem : ι → β) : Access ι β α → α
  | done a => a
  | read i next => value mem (next (mem i))

/-- The cells the program reads on the memory `mem`, in order. -/
def reads (mem : ι → β) : Access ι β α → List ι
  | done _ => []
  | read i next => i :: reads mem (next (mem i))

/-- Every cell read satisfies `P`. -/
def Within (mem : ι → β) (P : ι → Prop) (x : Access ι β α) : Prop := ∀ i ∈ x.reads mem, P i

@[simp] theorem value_pure (mem : ι → β) (a : α) : value mem (pure a : Access ι β α) = a := rfl

@[simp] theorem value_cell (mem : ι → β) (i : ι) : value mem (cell i) = mem i := by
  rw [cell, value, value]

@[simp] theorem value_bind (mem : ι → β) (x : Access ι β α) (f : α → Access ι β γ) :
    value mem (x >>= f) = value mem (f (value mem x)) := by
  induction x with
  | done a => rfl
  | read i next ih => exact ih (mem i)

theorem reads_bind (mem : ι → β) (x : Access ι β α) (f : α → Access ι β γ) :
    reads mem (x >>= f) = reads mem x ++ reads mem (f (value mem x)) := by
  induction x with
  | done a => rfl
  | read i next ih => exact congrArg (i :: ·) (ih (mem i))

@[simp] theorem within_pure (mem : ι → β) (P : ι → Prop) (a : α) :
    Within mem P (pure a : Access ι β α) := by
  intro i hi
  exact absurd hi List.not_mem_nil

@[simp] theorem within_cell (mem : ι → β) (P : ι → Prop) (i : ι) :
    Within mem P (cell i) ↔ P i := List.forall_mem_singleton

/-- A sequence stays within `P` when both of its parts do. -/
@[simp] theorem within_bind (mem : ι → β) (P : ι → Prop) (x : Access ι β α)
    (f : α → Access ι β γ) :
    Within mem P (x >>= f) ↔ Within mem P x ∧ Within mem P (f (value mem x)) := by
  rw [Within, reads_bind, List.forall_mem_append]
  rfl

end Access

/-- The `n` cells from `p` on. -/
def window {β : Type} (mem : Nat → β) (p n : Nat) : List β :=
  (List.range n).map (fun i => mem (p + i))

namespace Access

variable {β : Type}

/-- The cells `p[0..n]`, read one after the other. -/
def cells (p : Nat) : Nat → Access Nat β (List β)
  | 0 => pure []
  | n + 1 => do
    let b ← cell p
    let bs ← cells (p + 1) n
    return b :: bs

end Access

section Window

variable {β : Type} (mem : Nat → β)

@[simp] theorem length_window (p n : Nat) : (window mem p n).length = n := by
  rw [window, List.length_map, List.length_range]

theorem window_succ (p n : Nat) : window mem p (n + 1) = mem p :: window mem (p + 1) n := by
  rw [window, List.range_succ_eq_map, List.map_cons, List.map_map, window]
  refine congrArg₂ List.cons rfl (List.map_congr_left ?_)
  intro i hi
  exact congrArg mem (by simp only [Nat.succ_eq_add_one]; omega)

theorem window_get {p n i : Nat} (h : i < n) : (window mem p n)[i]? = some (mem (p + i)) := by
  rw [window, List.getElem?_map, List.getElem?_range h]
  rfl

/-- A slice of a window is a window. -/
theorem take_drop_window {p n off w : Nat} (h : off + w ≤ n) :
    ((window mem p n).drop off).take w = window mem (p + off) w := by
  apply List.ext_getElem?
  intro i
  by_cases hi : i < w
  · rw [List.getElem?_take_of_lt hi, List.getElem?_drop, window_get mem (by omega),
      window_get mem hi, Nat.add_assoc]
  · rw [List.getElem?_eq_none (by simp; omega), List.getElem?_eq_none (by simp; omega)]

@[simp] theorem Access.value_cells (p n : Nat) :
    Access.value mem (Access.cells p n) = window mem p n := by
  induction n generalizing p with
  | zero => rfl
  | succ n ih => rw [Access.cells, Access.value_bind, Access.value_cell, Access.value_bind, ih,
      Access.value_pure, window_succ]

@[simp] theorem Access.within_cells (P : Nat → Prop) (p n : Nat) :
    Access.Within mem P (Access.cells p n) ↔ ∀ i < n, P (p + i) := by
  induction n generalizing p with
  | zero => simp [Access.cells]
  | succ n ih =>
    rw [Access.cells, Access.within_bind, Access.within_cell, Access.within_bind, ih,
      and_iff_left (Access.within_pure _ _ _)]
    constructor
    · intro ⟨hp, hs⟩ i hi
      cases i with
      | zero => exact hp
      | succ i => exact Nat.add_right_comm p 1 i ▸ hs i (by omega)
    · intro h
      exact ⟨h 0 (by omega), fun i hi => Nat.add_right_comm p i 1 ▸ h (i + 1) (by omega)⟩

end Window

end Flowlab.Framework
