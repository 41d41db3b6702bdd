import Mathlib.Tactic

namespace Flowlab.Framework.Halting

section

variable {σ ι : Type*} (accepts : σ → ι → Prop) (step : σ → ι → σ)

/-- Every item of the list is accepted where the ones before it lead. -/
def Accepted : σ → List ι → Prop
  | _, [] => True
  | s, i :: is => accepts s i ∧ Accepted (step s i) is

instance decidableAccepted [∀ s i, Decidable (accepts s i)] :
    ∀ s is, Decidable (Accepted accepts step s is)
  | _, [] => isTrue trivial
  | s, i :: is =>
    have := decidableAccepted (step s i) is
    inferInstanceAs (Decidable (accepts s i ∧ Accepted accepts step (step s i) is))

/-- A list splits into an accepted part and a rest that is empty or starts with a refusal. -/
theorem exists_split (s : σ) (is : List ι) :
    ∃ p r, is = p ++ r ∧ Accepted accepts step s p ∧
      ∀ i r', r = i :: r' → ¬ accepts (p.foldl step s) i := by
  induction is generalizing s with
  | nil => exact ⟨[], [], rfl, trivial, fun i r' h => absurd h (by simp)⟩
  | cons i is ih =>
    by_cases hi : accepts s i
    · obtain ⟨p, r, hp, hacc, hstop⟩ := ih (step s i)
      exact ⟨i :: p, r, by rw [hp, List.cons_append], ⟨hi, hacc⟩, hstop⟩
    · refine ⟨[], i :: is, rfl, trivial, ?_⟩
      intro j r' h
      rw [← (List.cons.inj h).1]
      exact hi

variable {accepts step}

theorem accepted_append (s : σ) (p q : List ι) :
    Accepted accepts step s (p ++ q) ↔
      Accepted accepts step s p ∧ Accepted accepts step (p.foldl step s) q := by
  induction p generalizing s with
  | nil => simp [Accepted]
  | cons i p ih =>
    rw [List.cons_append, Accepted, ih, Accepted, List.foldl_cons, and_assoc]

/-- Nothing longer than the accepted part of a split is accepted. -/
theorem longest_of_split {s : σ} {p r : List ι}
    (hstop : ∀ i r', r = i :: r' → ¬ accepts (p.foldl step s) i) {q : List ι} (hq : q <+: p ++ r)
    (hacc : Accepted accepts step s q) : q <+: p := by
  rcases List.prefix_or_prefix_of_prefix hq (List.prefix_append p r) with h | ⟨t, rfl⟩
  · exact h
  · cases t with
    | nil => rw [List.append_nil]
    | cons i t =>
      obtain ⟨r', rfl⟩ := (List.prefix_append_right_inj p).mp hq
      have hrest := ((accepted_append s p (i :: t)).mp hacc).2
      exact absurd hrest.1 (hstop i (t ++ r') rfl)

end

end Flowlab.Framework.Halting
