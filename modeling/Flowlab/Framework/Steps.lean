import Mathlib.Tactic

namespace Flowlab.Framework.Steps

section

variable {σ α : Type*} {step : σ → α → Option σ} {P : σ → Prop}

/-- The steps one after the other; `none` when one of them is not possible where it is tried. -/
def run (step : σ → α → Option σ) (s : σ) (acts : List α) : Option σ := acts.foldlM step s

@[simp] theorem run_nil (s : σ) : run step s [] = some s := rfl

theorem run_cons (s : σ) (a : α) (acts : List α) :
    run step s (a :: acts) = (step s a).bind (fun t => run step t acts) := by
  simp only [run, List.foldlM_cons]
  rfl

theorem run_append (s : σ) (acts later : List α) :
    run step s (acts ++ later) = (run step s acts).bind (fun t => run step t later) := by
  simp only [run, List.foldlM_append]
  rfl

theorem run_cons_some {s t : σ} {a : α} {acts : List α} (h : run step s (a :: acts) = some t) :
    ∃ u, step s a = some u ∧ run step u acts = some t := by
  rw [run_cons] at h
  exact Option.bind_eq_some_iff.mp h

theorem run_append_some {s t : σ} {acts later : List α}
    (h : run step s (acts ++ later) = some t) :
    ∃ u, run step s acts = some u ∧ run step u later = some t := by
  rw [run_append] at h
  exact Option.bind_eq_some_iff.mp h

theorem run_concat_some {s t : σ} {acts : List α} {a : α} (h : run step s (acts ++ [a]) = some t) :
    ∃ u, run step s acts = some u ∧ step u a = some t := by
  obtain ⟨u, hu, hlast⟩ := run_append_some h
  obtain ⟨v, hv, hdone⟩ := run_cons_some hlast
  rw [run_nil] at hdone
  exact ⟨u, hu, hdone ▸ hv⟩

/-- What every step keeps holds after a run. -/
theorem run_keeps (hstep : ∀ {s a t}, P s → step s a = some t → P t) {s t : σ} {acts : List α}
    (hs : P s) (h : run step s acts = some t) : P t := by
  induction acts generalizing s with
  | nil => exact Option.some.inj h ▸ hs
  | cons a acts ih =>
    obtain ⟨u, hu, hrest⟩ := run_cons_some h
    exact ih (hstep hs hu) hrest

/-- A relation that every step keeps to holds between the two ends of a run. -/
theorem run_relates {R : σ → σ → Prop} (hrefl : ∀ s, R s s)
    (htrans : ∀ {s t u}, R s t → R t u → R s u) (hkeep : ∀ {s a t}, P s → step s a = some t → P t)
    (hstep : ∀ {s a t}, P s → step s a = some t → R s t) {s t : σ} {acts : List α} (hs : P s)
    (h : run step s acts = some t) : R s t := by
  induction acts generalizing s with
  | nil => exact Option.some.inj h ▸ hrefl s
  | cons a acts ih =>
    obtain ⟨u, hu, hrest⟩ := run_cons_some h
    exact htrans (hstep hs hu) (ih (hkeep hs hu) hrest)

/-- Steps that lower a measure no other step raises are taken no more often than it allows. -/
theorem count_le_measure {own : α → Bool} {left : σ → ℕ}
    (hkeep : ∀ {s a t}, P s → step s a = some t → P t)
    (hown : ∀ {s a t}, P s → own a = true → step s a = some t → left t < left s)
    (hother : ∀ {s a t}, P s → own a = false → step s a = some t → left t ≤ left s)
    {s t : σ} {acts : List α} (hs : P s) (h : run step s acts = some t) :
    acts.countP own + left t ≤ left s := by
  induction acts generalizing s with
  | nil =>
    rw [run_nil] at h
    simp [Option.some.inj h]
  | cons a acts ih =>
    obtain ⟨u, hu, hrest⟩ := run_cons_some h
    have htail := ih (hkeep hs hu) hrest
    cases ha : own a with
    | true =>
      have hlt := hown hs ha hu
      rw [List.countP_cons_of_pos ha]
      omega
    | false =>
      have hle := hother hs ha hu
      rw [List.countP_cons_of_neg (by simp [ha])]
      omega

end

end Flowlab.Framework.Steps
