import Mathlib.Tactic

namespace Flowlab.Framework.Pacing

/-- What is seen of a worker: whether it has finished, when its next step is due, and for how long a
step holds it. Times of `top` and beyond read `top`. -/
structure Clock (γ : Type*) where
  done : γ → Bool
  due : γ → ℕ
  period : γ → ℕ
  top : ℕ

variable {γ : Type*} {C : Clock γ}

/-- The turns of a poller from a time on, each with its time and its worker. A worker that is due takes
a step; one that has finished is replaced, and the new one takes its first step in the same turn. -/
inductive Trace (C : Clock γ) : ℕ → γ → List (ℕ × γ) → Prop
  | stop (lo : ℕ) (g : γ) : Trace C lo g []
  | step {lo t : ℕ} {g g' : γ} {rest : List (ℕ × γ)} (hlo : lo ≤ t) (htop : t < C.top)
      (hgo : C.done g = false) (hdue : C.due g ≤ t) (hnext : C.due g' = min (t + C.period g) C.top)
      (hrest : Trace C t g' rest) : Trace C lo g ((t, g) :: rest)
  | restart {lo t : ℕ} {g g' g'' : γ} {rest : List (ℕ × γ)} (hlo : lo ≤ t) (htop : t < C.top)
      (hend : C.done g = true) (hgo : C.done g' = false)
      (hnext : C.due g'' = min (t + C.period g') C.top)
      (hrest : Trace C t g'' rest) : Trace C lo g ((t, g) :: (t, g') :: rest)

def Clock.steps (C : Clock γ) (turns : List (ℕ × γ)) : List (ℕ × γ) :=
  turns.filter fun x => !C.done x.2

/-- No step comes within the period of an earlier one. -/
def Clock.Spaced (C : Clock γ) (turns : List (ℕ × γ)) : Prop :=
  (C.steps turns).Pairwise fun a b => a.1 + C.period a.2 ≤ b.1

/-- No worker is replaced before its next step would have been due. -/
def Clock.Patient (C : Clock γ) (turns : List (ℕ × γ)) : Prop :=
  ∀ x ∈ turns, C.done x.2 = true → C.due x.2 ≤ x.1

theorem steps_go {t : ℕ} {g : γ} (h : C.done g = false) (rest : List (ℕ × γ)) :
    C.steps ((t, g) :: rest) = (t, g) :: C.steps rest :=
  List.filter_cons_of_pos (by simp [h])

theorem steps_done {t : ℕ} {g : γ} (h : C.done g = true) (rest : List (ℕ × γ)) :
    C.steps ((t, g) :: rest) = C.steps rest :=
  List.filter_cons_of_neg (by simp [h])

theorem Trace.mono {lo lo' : ℕ} {g : γ} {turns : List (ℕ × γ)} (h : Trace C lo g turns)
    (hle : lo' ≤ lo) : Trace C lo' g turns := by
  cases h with
  | stop => exact .stop lo' g
  | step hlo htop hgo hdue hnext hrest => exact .step (hle.trans hlo) htop hgo hdue hnext hrest
  | restart hlo htop hend hgo hnext hrest =>
    exact .restart (hle.trans hlo) htop hend hgo hnext hrest

theorem Trace.lower {lo : ℕ} {g : γ} {turns : List (ℕ × γ)} (h : Trace C lo g turns) :
    ∀ x ∈ turns, lo ≤ x.1 := by
  induction h with
  | stop => exact fun x hx => absurd hx List.not_mem_nil
  | step hlo _ _ _ _ _ ih =>
    intro x hx
    rcases List.mem_cons.mp hx with rfl | hx
    · exact hlo
    · exact hlo.trans (ih x hx)
  | restart hlo _ _ _ _ _ ih =>
    intro x hx
    rcases List.mem_cons.mp hx with rfl | hx
    · exact hlo
    · rcases List.mem_cons.mp hx with rfl | hx
      · exact hlo
      · exact hlo.trans (ih x hx)

/-- After a step the rest need only keep away from the step before it. -/
theorem spaced_cons {t : ℕ} {g g' : γ} {rest : List (ℕ × γ)} (hgo : C.done g = false)
    (hrest : Trace C t g' rest) (bound : ℕ) :
    ((∀ s ∈ C.steps ((t, g) :: rest), bound ≤ s.1) ∧ C.Spaced ((t, g) :: rest)) ↔
      bound ≤ t ∧ (∀ s ∈ C.steps rest, t + C.period g ≤ s.1) ∧ C.Spaced rest := by
  rw [Clock.Spaced, steps_go hgo, List.pairwise_cons]
  constructor
  · rintro ⟨hbound, hspaced⟩
    exact ⟨hbound _ List.mem_cons_self, hspaced⟩
  · rintro ⟨hbound, hspaced⟩
    refine ⟨fun s hs => ?_, hspaced⟩
    rcases List.mem_cons.mp hs with rfl | hs
    · exact hbound
    · exact hbound.trans (hrest.lower s (List.mem_of_mem_filter hs))

/-- From the state a step at `t` leaves: what comes keeps its distance from that step and within
itself exactly if no worker is replaced before its time. -/
theorem Trace.spaced_after {lo : ℕ} {g : γ} {turns : List (ℕ × γ)} (h : Trace C lo g turns)
    {bound : ℕ} (hdue : C.due g = min bound C.top) :
    ((∀ s ∈ C.steps turns, bound ≤ s.1) ∧ C.Spaced turns) ↔ C.Patient turns := by
  induction h generalizing bound with
  | stop => simp [Clock.steps, Clock.Spaced, Clock.Patient]
  | @step lo t g g' rest hlo htop hgo hnow hnext hrest ih =>
    have hbound : bound ≤ t := by omega
    rw [spaced_cons hgo hrest, ih hnext, Clock.Patient, Clock.Patient, List.forall_mem_cons]
    simp [hbound, hgo]
  | @restart lo t g g' g'' rest hlo htop hend hgo hnext hrest ih =>
    have hbound : bound ≤ t ↔ C.due g ≤ t := by omega
    rw [Clock.Spaced, steps_done hend, ← Clock.Spaced, spaced_cons hgo hrest, ih hnext,
      Clock.Patient, Clock.Patient, List.forall_mem_cons, List.forall_mem_cons]
    simp [hbound, hend, hgo]

/-- A poller that begins with a worker at its first step paces its steps exactly if it replaces no
worker before its next step would have been due. -/
theorem Trace.spaced_iff {lo : ℕ} {g : γ} {turns : List (ℕ × γ)} (h : Trace C lo g turns)
    (hgo : C.done g = false) : C.Spaced turns ↔ C.Patient turns := by
  cases h with
  | stop => simp [Clock.steps, Clock.Spaced, Clock.Patient]
  | step hlo htop _ hdue hnext hrest =>
    have hafter := hrest.spaced_after hnext
    rw [Clock.Spaced, steps_go hgo, List.pairwise_cons, ← Clock.Spaced, hafter, Clock.Patient,
      Clock.Patient, List.forall_mem_cons]
    simp [hgo]
  | restart _ _ hend => exact absurd (hgo.symm.trans hend) Bool.false_ne_true

end Flowlab.Framework.Pacing
