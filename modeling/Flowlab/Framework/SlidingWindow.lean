import Mathlib.Tactic

namespace Flowlab.Framework.SlidingWindow

section

variable {α : Type*}

/-- Dropping from the front drops all there is to drop when what comes earlier goes earlier. -/
theorem dropWhile_eq_filter {p : α → Bool} {l : List α}
    (h : l.Pairwise fun a b => p b = true → p a = true) :
    l.dropWhile p = l.filter fun a => !p a := by
  induction l with
  | nil => rfl
  | cons a l ih =>
    obtain ⟨ha, hl⟩ := List.pairwise_cons.mp h
    cases hp : p a with
    | true => rw [List.dropWhile_cons_of_pos hp, List.filter_cons_of_neg (by simp [hp]), ih hl]
    | false =>
      rw [List.dropWhile_cons_of_neg (by simp [hp])]
      refine (List.filter_eq_self.mpr ?_).symm
      intro b hb
      rcases List.mem_cons.mp hb with rfl | hb
      · simp [hp]
      · cases hpb : p b with
        | true => exact absurd (ha b hb hpb) (by simp [hp])
        | false => rfl

/-- A window takes an entry in at the back and gives up at the front what expired by then. -/
def slide (expired : α → α → Bool) (w : List α) (c : α) : List α := (w ++ [c]).dropWhile (expired c)

/-- When entries come in order, older ones expire first and stay expired, a window holds exactly the
entries so far that its newest one does not expire. -/
theorem foldl_slide_eq_filter {r : α → α → Prop} (expired : α → α → Bool)
    (holder : ∀ {a b c}, r a b → expired c b = true → expired c a = true)
    (hlater : ∀ {a c c'}, r c c' → expired c a = true → expired c' a = true)
    {l : List α} {c : α} (h : (l ++ [c]).Pairwise r) :
    (l ++ [c]).foldl (slide expired) [] = (l ++ [c]).filter fun a => !expired c a := by
  induction l using List.reverseRecOn generalizing c with
  | nil =>
    refine dropWhile_eq_filter ?_
    exact List.pairwise_singleton _ _
  | append_singleton l b ih =>
    obtain ⟨hinit, _, hlast⟩ := List.pairwise_append.mp h
    rw [List.foldl_append, ih hinit]
    show slide expired ((l ++ [b]).filter fun a => !expired b a) c = _
    have hsub : ((l ++ [b]).filter (fun a => !expired b a) ++ [c]).Pairwise r :=
      h.sublist (List.filter_sublist.append_right _)
    have hbc := hlast b (by simp) c (by simp)
    have hkeep : ((l ++ [b]).filter fun a => !expired b a).filter (fun a => !expired c a) =
        (l ++ [b]).filter fun a => !expired c a := by
      rw [List.filter_filter]
      refine List.filter_congr fun a _ => ?_
      cases hb : expired b a with
      | true => simp [hlater hbc hb]
      | false => simp
    rw [slide, dropWhile_eq_filter (hsub.imp holder), List.filter_append, hkeep,
      ← List.filter_append]

end

end Flowlab.Framework.SlidingWindow
