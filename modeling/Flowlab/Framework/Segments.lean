import Mathlib.Tactic

namespace Flowlab.Framework

/-- How one pass over a list cuts it into segments: the entries it skips, which close what is open,
and for the others when they join the open segment and what they make of it. -/
structure Segmenter (α γ : Type*) where
  keep : α → Bool
  joins : γ → α → Bool
  start : α → γ
  absorb : γ → α → γ

namespace Segmenter

variable {α γ : Type*} (S : Segmenter α γ)

/-- One entry, with the closed segments and the open one. -/
def step (st : List γ × Option γ) (a : α) : List γ × Option γ :=
  if S.keep a then
    match st.2 with
    | some g =>
      if S.joins g a then (st.1, some (S.absorb g a)) else (st.1 ++ [g], some (S.start a))
    | none => (st.1, some (S.start a))
  else (st.1 ++ st.2.toList, none)

/-- The pass, with the segment that is open at its end closed. -/
def segments (l : List α) : List γ :=
  let st := l.foldl S.step ([], none)
  st.1 ++ st.2.toList

/-- The entries of a segment, the first one apart. -/
abbrev Block (α : Type*) := α × List α

def members (b : Block α) : List α := b.1 :: b.2

def summary (b : Block α) : γ := b.2.foldl S.absorb (S.start b.1)

theorem summary_concat (b : Block α) (a : α) :
    S.summary (b.1, b.2 ++ [a]) = S.absorb (S.summary b) a := by
  simp only [summary, List.foldl_append, List.foldl_cons, List.foldl_nil]

/-- The entries of every segment, behind those of the open one. -/
def blocks : Option (Block α) → List α → List (Block α)
  | cur, [] => cur.toList
  | some b, a :: l =>
    if S.keep a then
      if S.joins (S.summary b) a then blocks (some (b.1, b.2 ++ [a])) l
      else b :: blocks (some (a, [])) l
    else b :: blocks none l
  | none, a :: l => if S.keep a then blocks (some (a, [])) l else blocks none l

theorem foldl_step_eq (l : List α) (done : List γ) (cur : Option (Block α)) :
    (l.foldl S.step (done, cur.map S.summary)).1 ++
        (l.foldl S.step (done, cur.map S.summary)).2.toList =
      done ++ (S.blocks cur l).map S.summary := by
  induction l generalizing done cur with
  | nil => cases cur <;> simp [blocks]
  | cons a l ih =>
    cases cur with
    | none =>
      rw [List.foldl_cons, blocks]
      split_ifs with hkeep
      · have hstep : S.step (done, (none : Option (Block α)).map S.summary) a =
            (done, (some (a, [])).map S.summary) := by simp [step, hkeep, summary]
        rw [hstep, ih]
      · have hstep : S.step (done, (none : Option (Block α)).map S.summary) a =
            (done, (none : Option (Block α)).map S.summary) := by simp [step, hkeep]
        rw [hstep, ih]
    | some b =>
      rw [List.foldl_cons, blocks]
      split_ifs with hkeep hjoins
      · have hstep : S.step (done, (some b).map S.summary) a =
            (done, (some (b.1, b.2 ++ [a])).map S.summary) := by
          simp [step, hkeep, hjoins, summary_concat]
        rw [hstep, ih]
      · have hstep : S.step (done, (some b).map S.summary) a =
            (done ++ [S.summary b], (some (a, [])).map S.summary) := by
          simp only [step, if_pos hkeep, Option.map_some, if_neg hjoins]
          rfl
        rw [hstep, ih, List.map_cons, List.append_assoc, List.singleton_append]
      · have hstep : S.step (done, (some b).map S.summary) a =
            (done ++ [S.summary b], (none : Option (Block α)).map S.summary) := by
          simp [step, hkeep]
        rw [hstep, ih, List.map_cons, List.append_assoc, List.singleton_append]

/-- The segments are the summaries of the blocks. -/
theorem segments_eq (l : List α) : S.segments l = (S.blocks none l).map S.summary := by
  have h := S.foldl_step_eq l [] none
  rwa [List.nil_append] at h

/-- Every entry of a block but the first joined what was before it. -/
def Joined (b : Block α) : Prop :=
  ∀ q a, q ++ [a] <+: b.2 → S.joins (S.summary (b.1, q)) a = true

theorem joined_singleton (a : α) : S.Joined (a, []) := by
  intro q x hq
  exact absurd (List.prefix_nil.mp hq) (by simp)

theorem Joined.concat {b : Block α} (h : S.Joined b) {a : α}
    (ha : S.joins (S.summary b) a = true) : S.Joined (b.1, b.2 ++ [a]) := by
  intro q x hq
  rcases List.prefix_concat_iff.mp hq with heq | hpre
  · obtain ⟨rfl, hx⟩ := List.append_inj' heq rfl
    rw [← List.singleton_inj.mp hx] at ha
    exact ha
  · exact h q x hpre

/-- How a list is cut: what is skipped, a block, and then either its end, an entry that is skipped,
or one that does not join. -/
inductive Layout : List α → List (Block α) → Prop
  | nil {calm : List α} (hcalm : ∀ a ∈ calm, S.keep a = false) : Layout calm []
  | cons {calm : List α} {b : Block α} {l : List α} {bs : List (Block α)}
      (hcalm : ∀ a ∈ calm, S.keep a = false) (hkeep : ∀ a ∈ members b, S.keep a = true)
      (hjoined : S.Joined b)
      (hnext : ∀ a ∈ l.head?, S.keep a = true → S.joins (S.summary b) a = false)
      (rest : Layout l bs) : Layout (calm ++ (members b ++ l)) (b :: bs)

/-- A block with nothing before it. -/
theorem Layout.block {S : Segmenter α γ} {b : Block α} {l : List α} {bs : List (Block α)}
    (hkeep : ∀ a ∈ members b, S.keep a = true) (hjoined : S.Joined b)
    (hnext : ∀ a ∈ l.head?, S.keep a = true → S.joins (S.summary b) a = false)
    (rest : S.Layout l bs) : S.Layout (members b ++ l) (b :: bs) := by
  have hnil : ∀ a ∈ ([] : List α), S.keep a = false := fun a ha => absurd ha List.not_mem_nil
  exact .cons hnil hkeep hjoined hnext rest

theorem Layout.skip {S : Segmenter α γ} {l : List α} {bs : List (Block α)} (h : S.Layout l bs)
    {a : α} (ha : S.keep a = false) : S.Layout (a :: l) bs := by
  have hcons : ∀ calm : List α, (∀ x ∈ calm, S.keep x = false) →
      ∀ x ∈ a :: calm, S.keep x = false := by
    intro calm hcalm x hx
    rcases List.mem_cons.mp hx with rfl | hx
    · exact ha
    · exact hcalm x hx
  cases h with
  | nil hcalm => exact .nil (hcons _ hcalm)
  | cons hcalm hkeep hjoined hnext rest =>
    exact .cons (hcons _ hcalm) hkeep hjoined hnext rest

/-- An open block with the entries that are still to come is laid out by what the pass makes of
them. -/
theorem layout_blocks (l : List α) (cur : Option (Block α))
    (hcur : ∀ b ∈ cur, (∀ a ∈ members b, S.keep a = true) ∧ S.Joined b) :
    S.Layout (cur.elim [] members ++ l) (S.blocks cur l) := by
  induction l generalizing cur with
  | nil =>
    cases cur with
    | none => exact .nil (by simp)
    | some b =>
      obtain ⟨hkeep, hb⟩ := hcur b rfl
      exact .block hkeep hb (by simp) (.nil (by simp))
  | cons a l ih =>
    have hstart : S.keep a = true → S.Layout (a :: l) (S.blocks (some (a, [])) l) := by
      intro ha
      refine ih (some (a, [])) ?_
      rintro _ ⟨⟩
      exact ⟨by simpa [members] using ha, S.joined_singleton a⟩
    have hnone : S.Layout l (S.blocks none l) := ih none (by simp)
    cases cur with
    | none =>
      rw [blocks]
      split_ifs with ha
      · exact hstart ha
      · exact hnone.skip (Bool.eq_false_of_not_eq_true ha)
    | some b =>
      obtain ⟨hkeep, hb⟩ := hcur b rfl
      rw [blocks]
      split_ifs with ha hj
      · have hstep : members b ++ a :: l = members (b.1, b.2 ++ [a]) ++ l := by simp [members]
        rw [Option.elim_some, hstep]
        refine ih (some (b.1, b.2 ++ [a])) ?_
        rintro _ ⟨⟩
        refine ⟨?_, hb.concat S hj⟩
        intro x hx
        rcases List.mem_append.mp (show x ∈ members b ++ [a] by simpa [members] using hx) with
          hx | hx
        · exact hkeep x hx
        · rw [List.mem_singleton.mp hx, ha]
      · refine .block hkeep hb ?_ (hstart ha)
        rintro x ⟨⟩ -
        exact Bool.eq_false_of_not_eq_true hj
      · refine .block hkeep hb ?_ (hnone.skip (Bool.eq_false_of_not_eq_true ha))
        rintro x ⟨⟩ hx
        exact absurd hx ha

theorem layout (l : List α) : S.Layout l (S.blocks none l) := S.layout_blocks l none (by simp)

variable {S}

/-- The blocks hold the entries that are kept, in order and once each. -/
theorem Layout.flatMap_members {l : List α} {bs : List (Block α)} (h : S.Layout l bs) :
    bs.flatMap members = l.filter S.keep := by
  induction h with
  | nil hcalm =>
    rw [List.filter_eq_nil_iff.mpr fun a ha => by simp [hcalm a ha]]
    rfl
  | @cons calm b l bs hcalm hkeep hjoined hnext rest ih =>
    have hskip : calm.filter S.keep = [] :=
      List.filter_eq_nil_iff.mpr fun a ha => by simp [hcalm a ha]
    rw [List.flatMap_cons, ih, List.filter_append, List.filter_append, hskip, List.nil_append,
      List.filter_eq_self.mpr hkeep]

theorem Layout.keep_of_mem {l : List α} {bs : List (Block α)} (h : S.Layout l bs) {b : Block α}
    (hb : b ∈ bs) : ∀ a ∈ members b, S.keep a = true := by
  intro a ha
  have hmem : a ∈ l.filter S.keep := by
    rw [← h.flatMap_members]
    exact List.mem_flatMap.mpr ⟨b, hb, ha⟩
  exact (List.mem_filter.mp hmem).2

theorem Layout.joined {l : List α} {bs : List (Block α)} (h : S.Layout l bs) :
    ∀ b ∈ bs, S.Joined b := by
  induction h with
  | nil => simp
  | cons hcalm hkeep hjoined hnext rest ih =>
    intro b hb
    rcases List.mem_cons.mp hb with rfl | hb
    · exact hjoined
    · exact ih b hb

theorem Layout.infix_of_mem {l : List α} {bs : List (Block α)} (h : S.Layout l bs) :
    ∀ b ∈ bs, members b <:+: l := by
  induction h with
  | nil => simp
  | @cons calm b l bs hcalm hkeep hjoined hnext rest ih =>
    intro b' hb
    rcases List.mem_cons.mp hb with rfl | hb
    · exact ⟨calm, l, by simp⟩
    · exact (ih b' hb).trans ((List.suffix_append _ _).trans (List.suffix_append _ _)).isInfix

/-- What stands between a block and the next one of the list: only entries that are skipped, and
where there are none the next block did not join. -/
def Link (l : List α) (b b' : Block α) : Prop :=
  ∃ calm, members b ++ (calm ++ members b') <:+: l ∧ (∀ a ∈ calm, S.keep a = false) ∧
    (calm = [] → S.joins (S.summary b) b'.1 = false)

theorem Link.mono {l l' : List α} {b b' : Block α} (h : S.Link l b b') (hl : l <:+: l') :
    S.Link l' b b' := by
  obtain ⟨calm, hin, hcalm, hjoin⟩ := h
  exact ⟨calm, hin.trans hl, hcalm, hjoin⟩

theorem Layout.chain {l : List α} {bs : List (Block α)} (h : S.Layout l bs) :
    bs.IsChain (S.Link l) := by
  induction h with
  | nil => exact .nil
  | @cons calm b l bs hcalm hkeep hjoined hnext rest ih =>
    have hsub : l <:+: calm ++ (members b ++ l) :=
      ((List.suffix_append _ _).trans (List.suffix_append _ _)).isInfix
    cases bs with
    | nil => exact .singleton _
    | cons b' bs =>
      refine .cons_cons ?_ (ih.imp fun _ _ hlink => hlink.mono hsub)
      cases rest with
      | @cons calm' _ l' _ hcalm' hkeep' hjoined' hnext' rest' =>
        refine ⟨calm', ⟨calm, l', by simp⟩, hcalm', ?_⟩
        rintro rfl
        exact hnext b'.1 rfl (hkeep' b'.1 (List.mem_cons_self ..))

variable (S) in
/-- What was read before shows only in the blocks that it closed and in the open one. -/
theorem exists_blocks_append (p : List α) (cur : Option (Block α)) :
    ∃ closed cur', ∀ l, S.blocks cur (p ++ l) = closed ++ S.blocks cur' l := by
  induction p generalizing cur with
  | nil => exact ⟨[], cur, fun l => rfl⟩
  | cons a p ih =>
    cases cur with
    | none =>
      obtain ⟨closed, cur', h⟩ := ih (if S.keep a then some (a, []) else none)
      refine ⟨closed, cur', fun l => ?_⟩
      rw [← h, List.cons_append, blocks]
      split_ifs <;> rfl
    | some b =>
      by_cases ha : S.keep a = true
      · by_cases hj : S.joins (S.summary b) a = true
        · obtain ⟨closed, cur', h⟩ := ih (some (b.1, b.2 ++ [a]))
          refine ⟨closed, cur', fun l => ?_⟩
          rw [← h, List.cons_append, blocks, if_pos ha, if_pos hj]
        · obtain ⟨closed, cur', h⟩ := ih (some (a, []))
          refine ⟨b :: closed, cur', fun l => ?_⟩
          rw [List.cons_append, List.cons_append, blocks, if_pos ha, if_neg hj, h]
      · obtain ⟨closed, cur', h⟩ := ih none
        refine ⟨b :: closed, cur', fun l => ?_⟩
        rw [List.cons_append, List.cons_append, blocks, if_neg ha, h]

variable (S) in
theorem exists_blocks_open (b : Block α) (l : List α) :
    ∃ q rest, S.blocks (some b) l = (b.1, q) :: rest := by
  induction l generalizing b with
  | nil => exact ⟨b.2, [], rfl⟩
  | cons a l ih =>
    rw [blocks]
    split_ifs
    · exact ih (b.1, b.2 ++ [a])
    · exact ⟨b.2, _, rfl⟩
    · exact ⟨b.2, _, rfl⟩

theorem blocks_none_skip {calm : List α} (hcalm : ∀ x ∈ calm, S.keep x = false) (l : List α) :
    S.blocks none (calm ++ l) = S.blocks none l := by
  induction calm with
  | nil => rfl
  | cons c calm ih =>
    have hc : ¬ S.keep c = true := by simp [hcalm c]
    rw [List.cons_append, blocks, if_neg hc, ih fun x hx => hcalm x (List.mem_cons_of_mem _ hx)]

theorem exists_blocks_keep {a : α} (ha : S.keep a = true) (cur : Option (Block α)) :
    ∃ closed b q, members b = q ++ [a] ∧
      ∀ l, S.blocks cur (a :: l) = closed ++ S.blocks (some b) l := by
  cases cur with
  | none =>
    refine ⟨[], (a, []), [], rfl, fun l => ?_⟩
    rw [blocks, if_pos ha, List.nil_append]
  | some b =>
    by_cases hj : S.joins (S.summary b) a = true
    · refine ⟨[], (b.1, b.2 ++ [a]), members b, by simp [members], fun l => ?_⟩
      rw [blocks, if_pos ha, if_pos hj, List.nil_append]
    · refine ⟨[b], (a, []), [], rfl, fun l => ?_⟩
      rw [blocks, if_pos ha, if_neg hj, List.singleton_append]

/-- Entries that are skipped end the block before them, and the next kept entry opens one. -/
theorem exists_blocks_of_skip {p calm q : List α} {a d : α} (ha : S.keep a = true)
    (hd : S.keep d = true) (hcalm : ∀ x ∈ calm, S.keep x = false) (hne : calm ≠ []) :
    ∃ pre b b' post m, S.blocks none (p ++ a :: (calm ++ d :: q)) = pre ++ b :: b' :: post ∧
      members b = m ++ [a] ∧ b'.1 = d := by
  obtain ⟨closed, cur, hp⟩ := S.exists_blocks_append p none
  obtain ⟨closed', b, m, hm, hb⟩ := exists_blocks_keep ha cur
  obtain ⟨q', post, hq⟩ := S.exists_blocks_open (d, []) q
  obtain ⟨c, calm, rfl⟩ := List.exists_cons_of_ne_nil hne
  have hc : ¬ S.keep c = true := by simp [hcalm c]
  refine ⟨closed ++ closed', b, (d, q'), post, m, ?_, hm, rfl⟩
  rw [hp, hb, List.cons_append, blocks, if_neg hc,
    blocks_none_skip fun x hx => hcalm x (List.mem_cons_of_mem _ hx), blocks, if_pos hd, hq,
    List.append_assoc]

end Segmenter

/-- The greatest value of a list, after one more entry. -/
theorem isGreatest_concat {α κ : Type*} [LE κ] [Std.IsLinearOrder κ] {f : α → κ} {m : κ → κ → κ}
    (hm : ∀ x y, (m x y = x ∧ y ≤ x) ∨ (m x y = y ∧ x ≤ y)) {l : List α} {x : κ}
    (h : IsGreatest {y | ∃ a ∈ l, f a = y} x) (a : α) :
    IsGreatest {y | ∃ b ∈ l ++ [a], f b = y} (m x (f a)) := by
  obtain ⟨⟨b, hb, hbx⟩, hbound⟩ := h
  have hold : ∀ {c}, c ∈ l → f c ≤ x := fun hc => hbound ⟨_, hc, rfl⟩
  rcases hm x (f a) with ⟨hmax, hle⟩ | ⟨hmax, hle⟩ <;> rw [hmax]
  · refine ⟨⟨b, List.mem_append_left _ hb, hbx⟩, ?_⟩
    rintro _ ⟨c, hc, rfl⟩
    rcases List.mem_append.mp hc with hc | hc
    · exact hold hc
    · rwa [List.mem_singleton.mp hc]
  · refine ⟨⟨a, List.mem_append_right _ (List.mem_singleton_self a), rfl⟩, ?_⟩
    rintro _ ⟨c, hc, rfl⟩
    rcases List.mem_append.mp hc with hc | hc
    · exact Std.le_trans (hold hc) hle
    · rw [List.mem_singleton.mp hc]
      exact Std.le_refl _

end Flowlab.Framework
