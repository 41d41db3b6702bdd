import Mathlib.Tactic

namespace Flowlab.Framework

variable {α κ : Type*} [LinearOrder κ] {key : α → κ}

/-- A list sorted by a key, entries of one key in the order they had. -/
structure IsStableSort (key : α → κ) (l sorted : List α) : Prop where
  perm : sorted.Perm l
  ordered : sorted.Pairwise fun a b => key a ≤ key b
  stable : ∀ k, sorted.filter (fun a => key a = k) = l.filter fun a => key a = k

theorem mergeSort_isStableSort (l : List α) :
    IsStableSort key l (l.mergeSort fun a b => key a ≤ key b) := by
  have htrans : ∀ a b c : α, decide (key a ≤ key b) = true → decide (key b ≤ key c) = true →
      decide (key a ≤ key c) = true := by
    intro a b c hab hbc
    exact decide_eq_true ((of_decide_eq_true hab).trans (of_decide_eq_true hbc))
  have htotal : ∀ a b : α, (decide (key a ≤ key b) || decide (key b ≤ key a)) = true := by
    intro a b
    simpa using le_total (key a) (key b)
  refine ⟨List.mergeSort_perm .., ?_, fun k => ?_⟩
  · exact (List.pairwise_mergeSort htrans htotal l).imp fun h => of_decide_eq_true h
  · -- The entries of one key are a sorted sublist of the input, so they survive in their order.
    have hclass : (l.filter fun a => key a = k).Pairwise
        fun a b => decide (key a ≤ key b) = true := by
      refine List.pairwise_of_forall_mem_list fun a ha b hb => decide_eq_true ?_
      have hka : key a = k := by simpa using (List.mem_filter.mp ha).2
      have hkb : key b = k := by simpa using (List.mem_filter.mp hb).2
      rw [hka, hkb]
    have hsub := (List.sublist_mergeSort htrans htotal hclass List.filter_sublist).filter
      fun a => decide (key a = k)
    rw [List.filter_filter] at hsub
    simp only [Bool.and_self] at hsub
    refine (hsub.eq_of_length ?_).symm
    exact ((List.mergeSort_perm l _).filter _).length_eq.symm

/-- With one entry a key, nothing but the order is left. -/
theorem IsStableSort.unique {l l' sorted sorted' : List α} (h : IsStableSort key l sorted)
    (h' : IsStableSort key l' sorted') (hl : l.Perm l') (hnodup : (l.map key).Nodup) :
    sorted = sorted' := by
  have hperm : sorted.Perm sorted' := h.perm.trans (hl.trans h'.perm.symm)
  refine List.Perm.eq_of_pairwise ?_ h.ordered h'.ordered hperm
  intro a b ha hb hab hba
  have ha : a ∈ l := h.perm.subset ha
  have hb : b ∈ l := hl.symm.subset (h'.perm.subset hb)
  exact List.inj_on_of_nodup_map hnodup ha hb (le_antisymm hab hba)

end Flowlab.Framework
