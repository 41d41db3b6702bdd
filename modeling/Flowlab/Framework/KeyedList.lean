import Mathlib.Order.RelClasses
import Mathlib.Data.List.Basic

namespace Flowlab.Framework.KeyedList

/-- Keys strictly ordered by `before`, hence pairwise distinct. -/
def Sorted {α β : Type*} (key : β → α) (before : α → α → Bool) (l : List β) : Prop :=
  l.Pairwise (fun a b => before (key a) (key b) = true)

/-- The entry filed under `k`, if any. -/
def lookup {α β : Type*} [DecidableEq α] (key : β → α) (k : α) (l : List β) : Option β :=
  l.find? (fun b => decide (key b = k))

/-- How many leading entries come before `k`: the place where `k` is or belongs. -/
def rank {α β : Type*} (key : β → α) (before : α → α → Bool) (k : α) (l : List β) : Nat :=
  (l.takeWhile (fun b => before (key b) k)).length

/-- Replace what is filed under `k` by `f` of it, creating or dropping the entry. -/
def alter {α β : Type*} [DecidableEq α] (key : β → α) (before : α → α → Bool) (k : α)
    (f : Option β → Option β) : List β → List β
  | [] => (f none).toList
  | b :: l =>
    if before (key b) k then b :: alter key before k f l
    else if key b = k then (f (some b)).toList ++ l
    else (f none).toList ++ b :: l

/-- Whatever `f` makes of an entry filed under `k`, or of none, it files under `k`. -/
def FilesUnder {α β : Type*} (key : β → α) (k : α) (f : Option β → Option β) : Prop :=
  ∀ o b, (∀ c ∈ o, key c = k) → f o = some b → key b = k

section

variable {α β : Type*} [DecidableEq α] {key : β → α} {before : α → α → Bool}

@[simp] theorem lookup_nil (k : α) : lookup key k ([] : List β) = none := rfl

theorem lookup_cons (k : α) (b : β) (l : List β) :
    lookup key k (b :: l) = if key b = k then some b else lookup key k l := by
  by_cases h : key b = k <;> simp [lookup, h]

theorem lookup_append (k : α) (l m : List β) :
    lookup key k (l ++ m) = (lookup key k l).or (lookup key k m) := by
  simp [lookup, List.find?_append]

theorem key_of_lookup {k : α} {l : List β} {b : β} (h : lookup key k l = some b) : key b = k := by
  simpa using List.find?_some h

theorem mem_of_lookup {k : α} {l : List β} {b : β} (h : lookup key k l = some b) : b ∈ l :=
  List.mem_of_find?_eq_some h

theorem lookup_eq_none {k : α} {l : List β} :
    lookup key k l = none ↔ ∀ b ∈ l, key b ≠ k := by
  simp [lookup]

omit [DecidableEq α] in
theorem ne_of_before [IsStrictTotalOrder α (fun a b => before a b = true)] {a b : α}
    (h : before a b = true) : a ≠ b := by
  rintro rfl
  exact irrefl_of (fun a b => before a b = true) a h

omit [DecidableEq α] in
theorem before_of_not [IsStrictTotalOrder α (fun a b => before a b = true)] {a b : α}
    (h : ¬ before a b = true) (hne : a ≠ b) : before b a = true := by
  rcases trichotomous_of (fun a b => before a b = true) a b with hb | hb | hb
  · exact absurd hb h
  · exact absurd hb hne
  · exact hb

theorem lookup_none_of_before [IsStrictTotalOrder α (fun a b => before a b = true)] {k : α}
    {l : List β} (h : ∀ b ∈ l, before k (key b) = true) : lookup key k l = none := by
  apply lookup_eq_none.mpr
  intro b hb he
  exact ne_of_before (h b hb) he.symm

theorem sorted_lookup_tail [IsStrictTotalOrder α (fun a b => before a b = true)] {b : β}
    {l : List β} (hs : Sorted key before (b :: l)) : lookup key (key b) l = none :=
  lookup_none_of_before (List.pairwise_cons.mp hs).1

/-- A sorted list is determined by what it files under each key. -/
theorem ext [IsStrictTotalOrder α (fun a b => before a b = true)] (l m : List β)
    (hl : Sorted key before l) (hm : Sorted key before m)
    (h : ∀ k, lookup key k l = lookup key k m) : l = m := by
  induction l generalizing m with
  | nil =>
    cases m with
    | nil => rfl
    | cons c m => have := h (key c); simp [lookup_cons] at this
  | cons b l ih =>
    cases m with
    | nil => have := h (key b); simp [lookup_cons] at this
    | cons c m =>
      obtain ⟨hbl, hl'⟩ := List.pairwise_cons.mp hl
      obtain ⟨hcm, hm'⟩ := List.pairwise_cons.mp hm
      have hk : key b = key c := by
        by_contra hne
        have hb := h (key b)
        have hc := h (key c)
        simp only [lookup_cons, if_true, if_neg (Ne.symm hne), if_neg hne] at hb hc
        have h1 := hcm b (mem_of_lookup hb.symm)
        have h2 := hbl c (mem_of_lookup hc)
        exact irrefl_of (fun a b => before a b = true) _
          (trans_of (fun a b => before a b = true) h1 h2)
      have hbc : b = c := by
        have hb := h (key b)
        simpa [lookup_cons, hk] using hb
      subst hbc
      refine congrArg (List.cons b) (ih m hl' hm' ?_)
      intro k
      by_cases hkb : key b = k
      · subst hkb
        rw [sorted_lookup_tail hl, sorted_lookup_tail hm]
      · simpa [lookup_cons, hkb] using h k

theorem lookup_iff_mem [IsStrictTotalOrder α (fun a b => before a b = true)] {k : α} {l : List β}
    (hs : Sorted key before l) (b : β) : lookup key k l = some b ↔ b ∈ l ∧ key b = k := by
  refine ⟨fun h => ⟨mem_of_lookup h, key_of_lookup h⟩, ?_⟩
  intro hfound
  obtain ⟨hb, rfl⟩ := hfound
  induction l with
  | nil => simp at hb
  | cons c l ih =>
    rw [lookup_cons]
    rcases List.mem_cons.mp hb with rfl | hl
    · rw [if_pos rfl]
    · have hlt := (List.pairwise_cons.mp hs).1 b hl
      rw [if_neg (ne_of_before hlt)]
      exact ih (List.pairwise_cons.mp hs).2 hl

/-- Sorted lists with the same entries are equal. -/
theorem ext_mem [IsStrictTotalOrder α (fun a b => before a b = true)] {l m : List β}
    (hl : Sorted key before l) (hm : Sorted key before m) (h : ∀ b, b ∈ l ↔ b ∈ m) : l = m := by
  apply ext l m hl hm
  intro k
  apply Option.ext
  intro b
  rw [lookup_iff_mem hl, lookup_iff_mem hm, h b]

theorem mem_alter {k : α} {f : Option β → Option β} (hf : FilesUnder key k f) {l : List β} {b : β}
    (h : b ∈ alter key before k f l) : b ∈ l ∨ key b = k := by
  induction l with
  | nil => exact Or.inr (hf none b (by simp) (by simpa [alter] using h))
  | cons c l ih =>
    simp only [alter] at h
    split_ifs at h with hb hk
    · rcases List.mem_cons.mp h with rfl | h
      · simp
      · exact (ih h).imp_left (List.mem_cons_of_mem _)
    · rcases List.mem_append.mp h with h | h
      · exact Or.inr (hf (some c) b (by simpa using hk) (by simpa using h))
      · exact Or.inl (List.mem_cons_of_mem _ h)
    · rcases List.mem_append.mp h with h | h
      · exact Or.inr (hf none b (by simp) (by simpa using h))
      · exact Or.inl h

/-- If every entry has `P`, an alteration that makes `Q` out of `P` leaves only entries with `Q`. -/
theorem forall_mem_alter {P Q : β → Prop} (hPQ : ∀ b, P b → Q b) {k : α} {f : Option β → Option β}
    (hf : ∀ o b, (∀ c ∈ o, P c) → f o = some b → Q b) {l : List β} (hl : ∀ b ∈ l, P b) :
    ∀ b ∈ alter key before k f l, Q b := by
  induction l with
  | nil =>
    intro b hb
    exact hf none b (by simp) (by simpa [alter] using hb)
  | cons c l ih =>
    obtain ⟨hc, hl'⟩ := List.forall_mem_cons.mp hl
    intro b hb
    simp only [alter] at hb
    split_ifs at hb
    · rcases List.mem_cons.mp hb with rfl | hb
      · exact hPQ b hc
      · exact ih hl' b hb
    · rcases List.mem_append.mp hb with hb | hb
      · exact hf (some c) b (by simpa using hc) (by simpa using hb)
      · exact hPQ b (hl' b hb)
    · rcases List.mem_append.mp hb with hb | hb
      · exact hf none b (by simp) (by simpa using hb)
      · exact hPQ b (hl b hb)

/-- Altering one key of a sorted list leaves it sorted. -/
theorem sorted_alter [IsStrictTotalOrder α (fun a b => before a b = true)] {k : α}
    {f : Option β → Option β} (hf : FilesUnder key k f) (l : List β)
    (hs : Sorted key before l) : Sorted key before (alter key before k f l) := by
  induction l with
  | nil => cases h : f none <;> simp [alter, Sorted, h]
  | cons c l ih =>
    obtain ⟨hcl, hl⟩ := List.pairwise_cons.mp hs
    simp only [alter]
    split_ifs with hb hk
    · refine List.pairwise_cons.mpr ⟨?_, ih hl⟩
      intro x hx
      rcases mem_alter hf hx with hx | hx
      · exact hcl x hx
      · rw [hx]; exact hb
    · cases h : f (some c) with
      | none => exact hl
      | some d =>
        refine List.pairwise_cons.mpr ⟨?_, hl⟩
        intro x hx
        rw [hf (some c) d (by simpa using hk) h, ← hk]
        exact hcl x hx
    · cases h : f none with
      | none => exact hs
      | some d =>
        refine List.pairwise_cons.mpr ⟨?_, hs⟩
        have hkc := before_of_not hb hk
        intro x hx
        rw [hf none d (by simp) h]
        rcases List.mem_cons.mp hx with rfl | hx
        · exact hkc
        · exact trans_of (fun a b => before a b = true) hkc (hcl x hx)

/-- `alter` changes the one key it names, and changes it by `f`. -/
theorem lookup_alter [IsStrictTotalOrder α (fun a b => before a b = true)] {k : α}
    {f : Option β → Option β} (hf : FilesUnder key k f) (l : List β)
    (hs : Sorted key before l) (j : α) :
    lookup key j (alter key before k f l) =
      if j = k then f (lookup key k l) else lookup key j l := by
  have single (o : Option β) (ho : ∀ c ∈ o, key c = k) :
      lookup key j (f o).toList = if j = k then f o else none := by
    cases h : f o with
    | none => simp
    | some d =>
      have hd := hf o d ho h
      by_cases hj : j = k
      · simp [lookup_cons, hd, hj]
      · simp [lookup_cons, hd, hj, Ne.symm hj]
  induction l with
  | nil => simpa [alter] using single none (by simp)
  | cons c l ih =>
    obtain ⟨hcl, hl⟩ := List.pairwise_cons.mp hs
    by_cases hb : before (key c) k = true
    · have hc := ne_of_before hb
      rw [alter, if_pos hb, lookup_cons, lookup_cons, lookup_cons, ih hl, if_neg hc]
      by_cases hj : j = k
      · simp [hj, hc]
      · simp [hj]
    · by_cases hk : key c = k
      · rw [alter, if_neg hb, if_pos hk, lookup_append, single _ (by simpa using hk),
          lookup_cons, lookup_cons, if_pos hk]
        by_cases hj : j = k
        · have ht : lookup key j l = none := by rw [hj, ← hk]; exact sorted_lookup_tail hs
          rw [if_pos hj, if_pos hj, ht]
          simp
        · simp [hj, hk, Ne.symm hj]
      · have hkc := before_of_not hb hk
        have hall : ∀ x ∈ c :: l, before k (key x) = true := by
          intro x hx
          rcases List.mem_cons.mp hx with rfl | hx
          · exact hkc
          · exact trans_of (fun a b => before a b = true) hkc (hcl x hx)
        have hn := lookup_none_of_before hall
        rw [alter, if_neg hb, if_neg hk, lookup_append, single _ (by simp), hn]
        by_cases hj : j = k
        · simp [hj, hn]
        · simp [hj]

/-- `alter` makes the list longer or shorter by the one entry it creates or drops. -/
theorem length_alter [IsStrictTotalOrder α (fun a b => before a b = true)] (k : α)
    (f : Option β → Option β) (l : List β) (hs : Sorted key before l) :
    (alter key before k f l).length + (lookup key k l).toList.length =
      l.length + (f (lookup key k l)).toList.length := by
  induction l with
  | nil => simp [alter]
  | cons c l ih =>
    obtain ⟨hcl, hl⟩ := List.pairwise_cons.mp hs
    by_cases hb : before (key c) k = true
    · have hrec := ih hl
      rw [alter, if_pos hb, lookup_cons, if_neg (ne_of_before hb), List.length_cons, List.length_cons]
      omega
    · by_cases hk : key c = k
      · rw [alter, if_neg hb, if_pos hk, lookup_cons, if_pos hk, List.length_append, List.length_cons,
          Option.toList_some, List.length_singleton]
        omega
      · have hkc := before_of_not hb hk
        have hall : ∀ x ∈ c :: l, before k (key x) = true := by
          intro x hx
          rcases List.mem_cons.mp hx with rfl | hx
          · exact hkc
          · exact trans_of (fun a b => before a b = true) hkc (hcl x hx)
        rw [alter, if_neg hb, if_neg hk, lookup_none_of_before hall, List.length_append]
        simp only [Option.toList_none, List.length_nil]
        omega

omit [DecidableEq α] in
theorem rank_le (k : α) (l : List β) : rank key before k l ≤ l.length :=
  (List.takeWhile_sublist _).length_le

/-- Altering a key that stands at its rank rewrites that one position. -/
theorem alter_at_rank {k : α} {f : Option β → Option β} {l : List β} {b : β}
    (h : l[rank key before k l]? = some b) (hk : key b = k) :
    alter key before k f l =
      l.take (rank key before k l) ++ (f (some b)).toList ++ l.drop (rank key before k l + 1) := by
  induction l with
  | nil => simp at h
  | cons c l ih =>
    by_cases hb : before (key c) k = true
    · have hr : rank key before k (c :: l) = rank key before k l + 1 := by simp [rank, hb]
      rw [hr] at h ⊢
      simp only [alter, if_pos hb]
      rw [ih (by simpa using h)]
      simp
    · have hr : rank key before k (c :: l) = 0 := by simp [rank, hb]
      rw [hr] at h ⊢
      have hc : c = b := by simpa using h
      subst hc
      rw [alter, if_neg hb, if_pos hk]
      simp

/-- Altering a key that does not stand at its rank inserts there. -/
theorem alter_off_rank {k : α} {f : Option β → Option β} {l : List β}
    (h : ∀ b, l[rank key before k l]? = some b → key b ≠ k) :
    alter key before k f l =
      l.take (rank key before k l) ++ (f none).toList ++ l.drop (rank key before k l) := by
  induction l with
  | nil => simp [alter]
  | cons c l ih =>
    by_cases hb : before (key c) k = true
    · have hr : rank key before k (c :: l) = rank key before k l + 1 := by simp [rank, hb]
      rw [hr] at h ⊢
      simp only [alter, if_pos hb]
      rw [ih (by simpa using h)]
      simp
    · have hr : rank key before k (c :: l) = 0 := by simp [rank, hb]
      rw [hr] at h ⊢
      have hc : key c ≠ k := h c (by simp)
      simp [alter, hb, hc]

/-- On a sorted list the entry filed under `k` can only stand at the rank of `k`. -/
theorem lookup_eq_rank [IsStrictTotalOrder α (fun a b => before a b = true)] (k : α) (l : List β)
    (hs : Sorted key before l) :
    lookup key k l = l[rank key before k l]?.filter (fun b => decide (key b = k)) := by
  induction l with
  | nil => simp
  | cons c l ih =>
    obtain ⟨hcl, hl⟩ := List.pairwise_cons.mp hs
    by_cases hb : before (key c) k = true
    · have hr : rank key before k (c :: l) = rank key before k l + 1 := by simp [rank, hb]
      have hc := ne_of_before hb
      rw [hr, lookup_cons, if_neg hc, ih hl]
      simp
    · have hr : rank key before k (c :: l) = 0 := by simp [rank, hb]
      rw [hr, lookup_cons]
      by_cases hk : key c = k
      · simp [hk, Option.filter]
      · have hkc := before_of_not hb hk
        have hall : ∀ x ∈ l, before k (key x) = true := by
          intro x hx
          exact trans_of (fun a b => before a b = true) hkc (hcl x hx)
        have hn := lookup_none_of_before hall
        simp [hk, hn, Option.filter]

omit [DecidableEq α] in
/-- The rank splits a sorted list: exactly the entries left of it come before `k`. -/
theorem before_iff_lt_rank [IsStrictTotalOrder α (fun a b => before a b = true)] (k : α)
    (l : List β) (hs : Sorted key before l) (i : Nat) (hi : i < l.length) :
    before (key l[i]) k = true ↔ i < rank key before k l := by
  induction l generalizing i with
  | nil => simp at hi
  | cons c l ih =>
    obtain ⟨hcl, hl⟩ := List.pairwise_cons.mp hs
    by_cases hb : before (key c) k = true
    · have hr : rank key before k (c :: l) = rank key before k l + 1 := by simp [rank, hb]
      rw [hr]
      cases i with
      | zero => simp [hb]
      | succ i => simpa using ih hl i (by simpa using hi)
    · have hr : rank key before k (c :: l) = 0 := by simp [rank, hb]
      rw [hr]
      refine ⟨fun h => absurd ?_ hb, fun h => absurd h (Nat.not_lt_zero i)⟩
      cases i with
      | zero => exact h
      | succ i =>
        have hil : i < l.length := by simpa using hi
        have hm : before (key c) (key l[i]) = true := hcl _ (List.getElem_mem _)
        exact trans_of (fun a b => before a b = true) hm h

end

end Flowlab.Framework.KeyedList
