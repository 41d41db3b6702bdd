import Mathlib.Tactic

namespace Flowlab.Framework.Machine

section

variable {σ τ ι ο : Type*}

/-- Run a step function over a list of inputs and collect what each step returns. -/
def run (step : σ → ι → σ × ο) : σ → List ι → σ × List ο
  | s, [] => (s, [])
  | s, i :: is =>
    let r := step s i
    let rest := run step r.1 is
    (rest.1, r.2 :: rest.2)

theorem run_append (step : σ → ι → σ × ο) (s : σ) (is js : List ι) :
    run step s (is ++ js) =
      ((run step (run step s is).1 js).1, (run step s is).2 ++ (run step (run step s is).1 js).2) := by
  induction is generalizing s with
  | nil => rfl
  | cons i is ih => simp only [List.cons_append, run, ih]

/-- Groups of inputs that each lead back to the state `s`. -/
theorem run_flatMap {step : σ → ι → σ × ο} {s : σ} {γ : Type*} {f : γ → List ι} {out : γ → List ο}
    {gs : List γ} (h : ∀ g ∈ gs, run step s (f g) = (s, out g)) :
    run step s (gs.flatMap f) = (s, gs.flatMap out) := by
  induction gs with
  | nil => rfl
  | cons g gs ih =>
    have hg := h g (List.mem_cons_self ..)
    have hgs := ih fun g' hg' => h g' (List.mem_cons_of_mem g hg')
    rw [List.flatMap_cons, List.flatMap_cons, run_append, hg, hgs]

/-- A condition that a run can only lose holds at its start when it holds at its end. -/
theorem holds_at_start {step : σ → ι → σ × ο} {ok : σ → Prop}
    (hback : ∀ s i, ok (step s i).1 → ok s) (s : σ) (is : List ι) (h : ok (run step s is).1) :
    ok s := by
  induction is generalizing s with
  | nil => exact h
  | cons i is ih => exact hback s i (ih (step s i).1 h)

/-- Two machines in step: related states stay related and every step returns the same, as long as
the first machine stays within `ok`. -/
theorem run_simulates {step : σ → ι → σ × ο} {step' : τ → ι → τ × ο} {R : σ → τ → Prop}
    (ok : σ → Prop) (hback : ∀ s i, ok (step s i).1 → ok s)
    (hstep : ∀ s t i, R s t → ok (step s i).1 →
      R (step s i).1 (step' t i).1 ∧ (step s i).2 = (step' t i).2)
    (s : σ) (t : τ) (is : List ι) (hR : R s t) (hok : ok (run step s is).1) :
    R (run step s is).1 (run step' t is).1 ∧ (run step s is).2 = (run step' t is).2 := by
  induction is generalizing s t with
  | nil => exact ⟨hR, rfl⟩
  | cons i is ih =>
    obtain ⟨hR', hout⟩ := hstep s t i hR (holds_at_start hback (step s i).1 is hok)
    obtain ⟨hrun, houts⟩ := ih (step s i).1 (step' t i).1 hR' hok
    exact ⟨hrun, congrArg₂ List.cons hout houts⟩

/-- A condition on the steps of a run, read position by position. -/
theorem steps_of_get {P : List ι → ι → Prop} {is : List ι}
    (h : ∀ n : Fin is.length, P (is.take n) (is.get n)) {p : List ι} {i : ι}
    (hp : p ++ [i] <+: is) : P p i := by
  obtain ⟨r, rfl⟩ := hp
  have hn := h ⟨p.length, by simp⟩
  simpa using hn

/-- A condition on the parts a run starts with, read length by length. -/
theorem parts_of_get {P : List ι → Prop} {is : List ι}
    (h : ∀ n : Fin (is.length + 1), P (is.take n)) {p : List ι} (hp : p <+: is) : P p := by
  rw [List.prefix_iff_eq_take.mp hp]
  exact h ⟨p.length, Nat.lt_succ_of_le hp.length_le⟩

theorem next_unique {is p : List ι} {i j : ι} (hi : p ++ [i] <+: is) (hj : p ++ [j] <+: is) :
    i = j := by
  have h := (List.prefix_of_prefix_length_le hi hj (by simp)).eq_of_length (by simp)
  simpa using h

/-- In an ordered list, what does not come before `c` stands at `c` or behind it. -/
theorem prefix_of_not_before {r : ι → ι → Prop} {is : List ι} (h : is.Pairwise r) {q p : List ι}
    {c i : ι} (hq : q ++ [c] <+: is) (hp : p ++ [i] <+: is) (hnot : ¬ r i c) : q <+: p := by
  have hq' := (List.prefix_append q [c]).trans hq
  have hp' := (List.prefix_append p [i]).trans hp
  by_contra hfar
  have hlen : p.length < q.length := by
    by_contra hlen
    exact hfar (List.prefix_of_prefix_length_le hq' hp' (by omega))
  have hin : p ++ [i] <+: q := List.prefix_of_prefix_length_le hp hq' (by simp; omega)
  have hmem : i ∈ q := hin.subset (by simp)
  exact hnot ((List.pairwise_append.mp (h.sublist hq.sublist)).2.2 i hmem c (by simp))

/-- Every step of the run meets `ok`. -/
def Along (ok : σ → ι → Prop) (next : σ → ι → σ) : σ → List ι → Prop
  | _, [] => True
  | s, i :: is => ok s i ∧ Along ok next (next s i) is

theorem along_append {ok : σ → ι → Prop} {next : σ → ι → σ} {s : σ} {is js : List ι} :
    Along ok next s (is ++ js) ↔ Along ok next s is ∧ Along ok next (is.foldl next s) js := by
  induction is generalizing s with
  | nil => simp [Along]
  | cons i is ih => simp only [List.cons_append, Along, List.foldl_cons, ih, and_assoc]

theorem Along.imp {ok ok' : σ → ι → Prop} {next : σ → ι → σ} (himp : ∀ s i, ok s i → ok' s i) {s : σ}
    {is : List ι} (h : Along ok next s is) : Along ok' next s is := by
  induction is generalizing s with
  | nil => trivial
  | cons i is ih => exact ⟨himp s i h.1, ih h.2⟩

/-- A run of a step function that may fail. -/
def tryRun (step : σ → ι → Option (σ × ο)) : σ → List ι → Option (σ × List ο)
  | s, [] => some (s, [])
  | s, i :: is => do
    let r ← step s i
    let rest ← tryRun step r.1 is
    pure (rest.1, r.2 :: rest.2)

/-- A run of which no step fails. -/
theorem tryRun_eq {step : σ → ι → Option (σ × ο)} {total : σ → ι → σ × ο} {s : σ} {is : List ι}
    (h : Along (fun s i => step s i = some (total s i)) (fun s i => (total s i).1) s is) :
    tryRun step s is = some (run total s is) := by
  induction is generalizing s with
  | nil => rfl
  | cons i is ih =>
    rw [tryRun, h.1, Option.bind_eq_bind, Option.bind_some, ih h.2]
    rfl

/-- What holds at the start and survives every permitted step holds after a run of permitted steps. -/
theorem foldl_rule {step : σ → ι → σ} {P : σ → Prop} {ok : σ → ι → Prop}
    (hstep : ∀ s i, P s → ok s i → P (step s i)) {s : σ} (hs : P s) (is : List ι)
    (hok : ∀ p i, p ++ [i] <+: is → ok (p.foldl step s) i) : P (is.foldl step s) := by
  induction is using List.reverseRecOn with
  | nil => exact hs
  | append_singleton is i ih =>
    rw [List.foldl_append]
    refine hstep _ i (ih ?_) (hok is i List.prefix_rfl)
    intro p j hp
    exact hok p j (hp.trans (List.prefix_append is [i]))

end

end Flowlab.Framework.Machine
