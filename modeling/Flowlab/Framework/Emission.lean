import Mathlib.Tactic

namespace Flowlab.Framework.Machine

section

variable {σ ι ο : Type*} {step : σ → ι → σ × Option ο}

/-- The state after some inputs, of a machine that may emit at each. -/
def after (step : σ → ι → σ × Option ο) (s : σ) (is : List ι) : σ :=
  is.foldl (fun s i => (step s i).1) s

@[simp] theorem after_nil (s : σ) : after step s [] = s := rfl

@[simp] theorem after_cons (s : σ) (i : ι) (is : List ι) :
    after step s (i :: is) = after step (step s i).1 is := rfl

theorem after_append (s : σ) (is js : List ι) :
    after step s (is ++ js) = after step (after step s is) js := List.foldl_append

theorem after_concat (s : σ) (is : List ι) (j : ι) :
    after step s (is ++ [j]) = (step (after step s is) j).1 := by
  rw [after_append, after_cons, after_nil]

/-- `i` emits `o`, and the inputs `m` after it emit nothing. -/
structure LastEmission (step : σ → ι → σ × Option ο) (s : σ) (i : ι) (m : List ι) (o : ο) :
    Prop where
  emits : (step s i).2 = some o
  quiet : ∀ q j, q ++ [j] <+: m → (step (after step s (i :: q)) j).2 = none

theorem LastEmission.init {s : σ} {i j : ι} {m : List ι} {o : ο}
    (h : LastEmission step s i (m ++ [j]) o) : LastEmission step s i m o where
  emits := h.emits
  quiet q k hq := h.quiet q k (hq.trans (List.prefix_append m [j]))

/-- What an emission establishes and every silent step keeps holds up to the next emission. -/
theorem LastEmission.rule {P : σ → Prop} {s : σ} {i : ι} {m : List ι} {o : ο}
    (h : LastEmission step s i m o) (hstart : P (step s i).1)
    (hkeep : ∀ t j, j ∈ m → P t → (step t j).2 = none → P (step t j).1) :
    P (after step s (i :: m)) := by
  induction m using List.reverseRecOn with
  | nil => exact hstart
  | append_singleton m j ih =>
    rw [← List.cons_append, after_concat]
    refine hkeep _ j (by simp) (ih h.init ?_) (h.quiet m j List.prefix_rfl)
    intro t k hk
    exact hkeep t k (by simp [hk])

end

end Flowlab.Framework.Machine
