import Mathlib.Tactic

namespace Flowlab.Framework.Writer

/-- The numbers climb strictly, from `lo` on and below `hi`. -/
def Rises : ℕ → List ℕ → ℕ → Prop
  | lo, [], hi => lo ≤ hi
  | lo, x :: xs, hi => lo ≤ x ∧ Rises (x + 1) xs hi

theorem Rises.append {lo mid hi : ℕ} {xs ys : List ℕ} (h : Rises lo xs mid) (k : Rises mid ys hi) :
    Rises lo (xs ++ ys) hi := by
  induction xs generalizing lo with
  | nil =>
    cases ys with
    | nil => exact le_trans h k
    | cons y ys => exact ⟨le_trans h k.1, k.2⟩
  | cons x xs ih => exact ⟨h.1, ih h.2⟩

theorem Rises.le {lo hi : ℕ} {xs : List ℕ} (h : Rises lo xs hi) : lo ≤ hi := by
  induction xs generalizing lo with
  | nil => exact h
  | cons x xs ih =>
    have := ih h.2
    have := h.1
    omega

theorem Rises.ge {lo hi : ℕ} {xs : List ℕ} (h : Rises lo xs hi) : ∀ x ∈ xs, lo ≤ x := by
  induction xs generalizing lo with
  | nil => intro x hx; simp at hx
  | cons y xs ih =>
    intro x hx
    rcases List.mem_cons.mp hx with rfl | hx
    · exact h.1
    · have := ih h.2 x hx
      have := h.1
      omega

theorem Rises.lt {lo hi : ℕ} {xs : List ℕ} (h : Rises lo xs hi) : ∀ x ∈ xs, x < hi := by
  induction xs generalizing lo with
  | nil => intro x hx; simp at hx
  | cons y xs ih =>
    intro x hx
    rcases List.mem_cons.mp hx with rfl | hx
    · exact h.2.le
    · exact ih h.2 x hx

/-- The upper bound may be any other bound of the numbers. -/
theorem Rises.below {lo hi hi' : ℕ} {xs : List ℕ} (h : Rises lo xs hi) (hlo : lo ≤ hi')
    (hx : ∀ x ∈ xs, x < hi') : Rises lo xs hi' := by
  induction xs generalizing lo with
  | nil => exact hlo
  | cons y xs ih =>
    exact ⟨h.1, ih h.2 (hx y (by simp)) (fun x hm => hx x (by simp [hm]))⟩

theorem Rises.pairwise {lo hi : ℕ} {xs : List ℕ} (h : Rises lo xs hi) : xs.Pairwise (· < ·) := by
  induction xs generalizing lo with
  | nil => exact List.Pairwise.nil
  | cons x xs ih => exact List.pairwise_cons.mpr ⟨fun y hy => h.2.ge y hy, ih h.2⟩

section

variable {σ ε α β ι : Type}

/-- A relation between the state before, what was appended and the state after, which costs add up
along: two costs, `n` and `k`. -/
structure Additive (R : ℕ → ℕ → σ → List ε → σ → Prop) : Prop where
  refl : ∀ n k s, R n k s [] s
  trans : ∀ {n k n' k' s t u es fs}, R n k s es t → R n' k' t fs u →
    R (n + n') (k + k') s (es ++ fs) u

variable (out : σ → List ε) (R : ℕ → ℕ → σ → List ε → σ → Prop)

/-- The program only appends to `out`, and what it appends is related by `R` at these costs. -/
def Appends (n k : ℕ) (m : StateM σ α) : Prop :=
  ∀ s, ∃ es, out (m s).2 = out s ++ es ∧ R n k s es (m s).2

variable {out R}

theorem Appends.pure (hR : Additive R) (n k : ℕ) (a : α) :
    Appends out R n k (Pure.pure a : StateM σ α) := by
  intro s
  exact ⟨[], (List.append_nil _).symm, hR.refl n k s⟩

/-- One program after another, for the values the first can return. -/
theorem Appends.bind (hR : Additive R) {n k n' k' : ℕ} {m : StateM σ α} {f : α → StateM σ β}
    (hm : Appends out R n k m) (hf : ∀ s, Appends out R n' k' (f (m s).1)) :
    Appends out R (n + n') (k + k') (m >>= f) := by
  intro s
  obtain ⟨es, hes, h⟩ := hm s
  obtain ⟨fs, hfs, h'⟩ := hf s (m s).2
  refine ⟨es ++ fs, ?_, hR.trans h h'⟩
  calc out ((m >>= f) s).2 = out (f (m s).1 (m s).2).2 := rfl
    _ = out s ++ (es ++ fs) := by rw [hfs, hes, List.append_assoc]

theorem Appends.forM (hR : Additive R) {n k : ℕ} {f : ι → StateM σ PUnit}
    (hf : ∀ i, Appends out R n k (f i)) (l : List ι) :
    Appends out R (l.length * n) (l.length * k) (l.forM f) := by
  induction l with
  | nil =>
    intro s
    exact ⟨[], (List.append_nil _).symm, hR.refl _ _ s⟩
  | cons i l ih =>
    have h : Appends out R (n + l.length * n) (k + l.length * k) (f i >>= fun _ => l.forM f) :=
      Appends.bind hR (hf i) (fun _ => ih)
    rw [List.length_cons, Nat.succ_mul, Nat.succ_mul, Nat.add_comm _ n, Nat.add_comm _ k]
    exact h

end

end Flowlab.Framework.Writer
