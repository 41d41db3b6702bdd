import Mathlib.Data.List.Basic

namespace Flowlab.Framework.Lanes

section

variable {σ ι : Type*} {step : σ → ι → σ}

/-- A step that commutes with every step of a run can be taken after it. -/
theorem foldl_comm {i : ι} {l : List ι} (h : ∀ j ∈ l, ∀ s, step (step s i) j = step (step s j) i)
    (s : σ) : l.foldl step (step s i) = step (l.foldl step s) i := by
  induction l generalizing s with
  | nil => rfl
  | cons j l ih =>
    rw [List.foldl_cons, List.foldl_cons, h j List.mem_cons_self s]
    exact ih (fun j' hj' => h j' (List.mem_cons_of_mem j hj')) (step s j)

/-- Two lanes of a run: the steps marked by `p` may all go first when each of them commutes with
the unmarked steps in front of it. -/
theorem foldl_lanes (p : ι → Bool) {l : List ι}
    (h : l.Pairwise fun i j => p i = false → p j = true →
      ∀ s, step (step s i) j = step (step s j) i) (s : σ) :
    l.foldl step s = (l.filter fun i => !p i).foldl step ((l.filter p).foldl step s) := by
  induction l generalizing s with
  | nil => rfl
  | cons i l ih =>
    obtain ⟨hi, hl⟩ := List.pairwise_cons.mp h
    rw [List.foldl_cons, ih hl]
    cases hp : p i with
    | true => rw [List.filter_cons_of_pos hp, List.filter_cons_of_neg (by simp [hp]), List.foldl_cons]
    | false =>
      have hcomm : (l.filter p).foldl step (step s i) = step ((l.filter p).foldl step s) i := by
        refine foldl_comm ?_ s
        intro j hj
        exact hi j (List.mem_of_mem_filter hj) hp (List.of_mem_filter hj)
      rw [hcomm, List.filter_cons_of_neg (by simp [hp]), List.filter_cons_of_pos (by simp [hp]),
        List.foldl_cons]

end

/-- A beginning of a filtered list comes from a beginning of the list. -/
theorem exists_prefix_of_filter {ι : Type*} {f : ι → Bool} {l q : List ι} {e : ι}
    (h : q ++ [e] <+: l.filter f) : ∃ p, p ++ [e] <+: l ∧ p.filter f = q := by
  induction l generalizing q with
  | nil => simp at h
  | cons x l ih =>
    cases hx : f x with
    | false =>
      rw [List.filter_cons_of_neg (by simp [hx])] at h
      obtain ⟨p, hp, hq⟩ := ih h
      refine ⟨x :: p, ?_, by rw [List.filter_cons_of_neg (by simp [hx]), hq]⟩
      rw [List.cons_append]
      exact List.cons_prefix_cons.mpr ⟨rfl, hp⟩
    | true =>
      rw [List.filter_cons_of_pos hx] at h
      cases q with
      | nil =>
        rw [List.nil_append, List.cons_prefix_cons] at h
        refine ⟨[], ?_, rfl⟩
        rw [List.nil_append, List.cons_prefix_cons]
        exact ⟨h.1, List.nil_prefix⟩
      | cons y q =>
        rw [List.cons_append, List.cons_prefix_cons] at h
        obtain ⟨p, hp, hq⟩ := ih h.2
        refine ⟨x :: p, ?_, by rw [List.filter_cons_of_pos hx, hq, h.1]⟩
        rw [List.cons_append]
        exact List.cons_prefix_cons.mpr ⟨rfl, hp⟩

/-- A beginning that ends with something the second part does not hold lies in the first part. -/
theorem prefix_left_of_append {ι : Type*} {a b p : List ι} {e : ι} (h : p ++ [e] <+: a ++ b)
    (he : e ∉ b) : p ++ [e] <+: a := by
  rcases List.prefix_or_prefix_of_prefix h (List.prefix_append a b) with hp | ⟨t, ht⟩
  · exact hp
  · rw [← ht] at h ⊢
    rcases List.eq_nil_or_concat t with rfl | ⟨t', x, rfl⟩
    · exact (List.append_nil a).symm ▸ List.prefix_rfl
    · have hx : x = e := by
        rw [List.concat_eq_append, ← List.append_assoc] at ht
        exact (List.append_inj' ht rfl).2 |> List.head_eq_of_cons_eq
      have hmem := ((List.prefix_append_right_inj a).mp h).subset (show x ∈ t'.concat x by simp)
      exact absurd (hx ▸ hmem) he

end Flowlab.Framework.Lanes
