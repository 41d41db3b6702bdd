import Mathlib.Tactic

namespace Flowlab.Framework.FiniteMap

open Std

section

variable {κ ν : Type*} [Ord κ] [TransOrd κ] [LawfulEqOrd κ] [DecidableEq κ]

theorem get_insert (t : ExtTreeMap κ ν) (k a : κ) (v : ν) :
    (t.insert k v)[a]? = if a = k then some v else t[a]? := by
  rw [ExtTreeMap.getElem?_insert]
  by_cases h : a = k
  · simp [h]
  · have hc : compare k a ≠ .eq := fun hc => h (LawfulEqOrd.eq_of_compare hc).symm
    simp [h, hc]

theorem get_erase (t : ExtTreeMap κ ν) (k a : κ) :
    (t.erase k)[a]? = if a = k then none else t[a]? := by
  rw [ExtTreeMap.getElem?_erase]
  by_cases h : a = k
  · simp [h]
  · have hc : compare k a ≠ .eq := fun hc => h (LawfulEqOrd.eq_of_compare hc).symm
    simp [h, hc]

/-- Bind a key or drop it. -/
def put (t : ExtTreeMap κ ν) (k : κ) : Option ν → ExtTreeMap κ ν
  | some v => t.insert k v
  | none => t.erase k

theorem get_put (t : ExtTreeMap κ ν) (k a : κ) (o : Option ν) :
    (put t k o)[a]? = if a = k then o else t[a]? := by
  cases o with
  | none => exact get_erase t k a
  | some v => exact get_insert t k a v

theorem put_comm (t : ExtTreeMap κ ν) {i j : κ} (h : i ≠ j) (o o' : Option ν) :
    put (put t i o) j o' = put (put t j o') i o := by
  apply ExtTreeMap.ext_getElem?
  intro k
  simp only [get_put]
  by_cases hi : k = i
  · by_cases hj : k = j
    · exact absurd (hi.symm.trans hj) h
    · rw [if_neg hj, if_pos hi, if_pos hi]
  · rw [if_neg hi, if_neg hi]

theorem put_put (t : ExtTreeMap κ ν) (i : κ) (o o' : Option ν) : put (put t i o) i o' = put t i o' := by
  apply ExtTreeMap.ext_getElem?
  intro k
  simp only [get_put]
  split_ifs <;> rfl

theorem put_self (t : ExtTreeMap κ ν) (i : κ) : put t i t[i]? = t := by
  apply ExtTreeMap.ext_getElem?
  intro k
  rw [get_put]
  split_ifs with h
  · rw [h]
  · rfl

omit [DecidableEq κ] in
theorem nodup_toList (t : ExtTreeMap κ ν) : t.toList.Nodup := by
  refine List.Pairwise.imp ?_ (ExtTreeMap.distinct_keys_toList (t := t))
  intro a b h he
  subst he
  exact h (ReflCmp.compare_self)

/-- Binding an unbound key adds one entry to the listing. -/
theorem toList_insert_perm (t : ExtTreeMap κ ν) (k : κ) (v : ν) (h : t[k]? = none) :
    (t.insert k v).toList.Perm ((k, v) :: t.toList) := by
  refine (List.perm_ext_iff_of_nodup (nodup_toList _) ?_).mpr ?_
  · refine List.nodup_cons.mpr ⟨?_, nodup_toList t⟩
    rw [ExtTreeMap.mem_toList_iff_getElem?_eq_some, h]
    simp
  · intro entry
    obtain ⟨a, w⟩ := entry
    rw [ExtTreeMap.mem_toList_iff_getElem?_eq_some, get_insert, List.mem_cons,
      ExtTreeMap.mem_toList_iff_getElem?_eq_some]
    by_cases ha : a = k
    · subst ha
      simp [h, eq_comm]
    · simp [ha]

theorem insert_erase_self (t : ExtTreeMap κ ν) (k : κ) (v : ν) (h : t[k]? = some v) :
    (t.erase k).insert k v = t := by
  apply ExtTreeMap.ext_getElem?
  intro a
  rw [get_insert, get_erase]
  by_cases ha : a = k
  · simp [ha, h]
  · simp [ha]

/-- A bound key is one entry of the listing; the rest is the listing without it. -/
theorem toList_erase_perm (t : ExtTreeMap κ ν) (k : κ) (v : ν) (h : t[k]? = some v) :
    t.toList.Perm ((k, v) :: (t.erase k).toList) := by
  have hp := toList_insert_perm (t.erase k) k v (by simp)
  rwa [insert_erase_self t k v h] at hp

theorem size_insert_new (t : ExtTreeMap κ ν) (k : κ) (v : ν) (h : t[k]? = none) :
    (t.insert k v).size = t.size + 1 := by
  rw [← ExtTreeMap.length_toList, (toList_insert_perm t k v h).length_eq, List.length_cons,
    ExtTreeMap.length_toList]

omit [LawfulEqOrd κ] [DecidableEq κ] in
/-- Rebinding a key keeps the size. -/
theorem size_insert_bound (t : ExtTreeMap κ ν) (k : κ) (v : ν) {w : ν} (h : t[k]? = some w) :
    (t.insert k v).size = t.size := by
  have hc : t.contains k = true := by rw [ExtTreeMap.contains_eq_isSome_getElem?, h, Option.isSome_some]
  rw [ExtTreeMap.size_insert, if_pos hc]

theorem size_erase_bound (t : ExtTreeMap κ ν) (k : κ) (v : ν) (h : t[k]? = some v) :
    (t.erase k).size + 1 = t.size := by
  rw [← ExtTreeMap.length_toList, ← ExtTreeMap.length_toList,
    (toList_erase_perm t k v h).length_eq, List.length_cons]

omit [DecidableEq κ] in
/-- Maps that bind the same keys have the same size. -/
theorem size_eq_of_dom {μ : Type*} (t : ExtTreeMap κ ν) (u : ExtTreeMap κ μ)
    (h : ∀ k : κ, t[k]? = none ↔ u[k]? = none) : t.size = u.size := by
  have hp : t.keys.Perm u.keys := by
    refine (List.perm_ext_iff_of_nodup ?_ ?_).mpr ?_
    · exact ExtTreeMap.nodup_keys
    · exact ExtTreeMap.nodup_keys
    · intro k
      rw [ExtTreeMap.mem_keys, ExtTreeMap.mem_keys, ← not_iff_not]
      simpa using h k
  rw [← ExtTreeMap.length_keys, hp.length_eq, ExtTreeMap.length_keys]

/-- Sum of `f` over all bindings. -/
def total (f : κ → ν → Nat) (t : ExtTreeMap κ ν) : Nat := (t.toList.map fun p => f p.1 p.2).sum

omit [LawfulEqOrd κ] [DecidableEq κ] in
theorem total_empty (f : κ → ν → Nat) : total f (∅ : ExtTreeMap κ ν) = 0 := by
  have h : (∅ : ExtTreeMap κ ν).toList = [] := ExtTreeMap.toList_eq_nil_iff.mpr rfl
  simp [total, h]

theorem total_insert_new (f : κ → ν → Nat) (t : ExtTreeMap κ ν) (k : κ) (v : ν)
    (h : t[k]? = none) : total f (t.insert k v) = f k v + total f t := by
  simp only [total]
  rw [((toList_insert_perm t k v h).map _).sum_eq]
  simp

theorem total_erase (f : κ → ν → Nat) (t : ExtTreeMap κ ν) (k : κ) (v : ν)
    (h : t[k]? = some v) : total f t = f k v + total f (t.erase k) := by
  simp only [total]
  rw [((toList_erase_perm t k v h).map _).sum_eq]
  simp

theorem total_update (f : κ → ν → Nat) (t : ExtTreeMap κ ν) (k : κ) (v w : ν)
    (h : t[k]? = some v) : total f (t.insert k w) + f k v = f k w + total f t := by
  have he : (t.erase k).insert k w = t.insert k w := by
    apply ExtTreeMap.ext_getElem?
    intro a
    simp only [get_insert, get_erase]
    split_ifs <;> rfl
  have hn := total_insert_new f (t.erase k) k w (by simp)
  rw [he] at hn
  have hd := total_erase f t k v h
  omega

/-- Rebinding a key exchanges its summand. -/
theorem total_put (f : κ → ν → Nat) (t : ExtTreeMap κ ν) (k : κ) (o : Option ν) :
    total f (put t k o) + (t[k]?).elim 0 (f k) = o.elim 0 (f k) + total f t := by
  cases o with
  | none =>
    cases h : t[k]? with
    | none =>
      have hput : put t k none = t := by
        have hself := put_self t k
        rwa [h] at hself
      rw [hput]
      simp
    | some v =>
      have he := total_erase f t k v h
      simp only [put, Option.elim_some, Option.elim_none]
      omega
  | some w =>
    cases h : t[k]? with
    | none => simpa [put] using total_insert_new f t k w h
    | some v => simpa [put] using total_update f t k v w h

/-- The total of a map of two keys at most. -/
theorem total_two (f : κ → ν → Nat) {t : ExtTreeMap κ ν} {k k' : κ} (hne : k ≠ k') {o o' : Option ν}
    (h : ∀ a : κ, t[a]? = if a = k then o else if a = k' then o' else none) :
    total f t = o.elim 0 (f k) + o'.elim 0 (f k') := by
  have ht : t = put (put ∅ k o) k' o' := by
    apply ExtTreeMap.ext_getElem?
    intro a
    rw [h, get_put, get_put, ExtTreeMap.getElem?_empty]
    split_ifs with hk hk'
    · exact absurd (hk.symm.trans hk') hne
    · rfl
    · rfl
    · rfl
  have hone := total_put f (∅ : ExtTreeMap κ ν) k o
  have htwo := total_put f (put ∅ k o) k' o'
  rw [ExtTreeMap.getElem?_empty, Option.elim_none, total_empty] at hone
  rw [get_put, if_neg hne.symm, ExtTreeMap.getElem?_empty, Option.elim_none] at htwo
  rw [ht]
  omega

theorem total_pos (f : κ → ν → Nat) (t : ExtTreeMap κ ν) (k : κ) (v : ν)
    (h : t[k]? = some v) : f k v ≤ total f t := by
  have := total_erase f t k v h
  omega

omit [DecidableEq κ] in
/-- Totals compare when their summands do, up to a factor. -/
theorem total_le_mul (f g : κ → ν → Nat) (t : ExtTreeMap κ ν) (c : Nat)
    (h : ∀ k v, t[k]? = some v → f k v ≤ g k v * c) : total f t ≤ total g t * c := by
  have hmem (r : κ × ν) (hr : r ∈ t.toList) : f r.1 r.2 ≤ g r.1 r.2 * c :=
    h r.1 r.2 (ExtTreeMap.mem_toList_iff_getElem?_eq_some.mp hr)
  simp only [total]
  generalize t.toList = l at hmem
  induction l with
  | nil => simp
  | cons r l ih =>
    have hr := hmem r (by simp)
    have hl := ih (fun s hs => hmem s (List.mem_cons_of_mem r hs))
    simp only [List.map_cons, List.sum_cons, Nat.add_mul]
    omega

omit [DecidableEq κ] in
/-- Totals compare when their summands do. -/
theorem total_mono (f g : κ → ν → Nat) (t : ExtTreeMap κ ν)
    (h : ∀ k v, t[k]? = some v → f k v ≤ g k v) : total f t ≤ total g t := by
  have hle := total_le_mul f g t 1 (fun k v hv => by simpa using h k v hv)
  omega

omit [LawfulEqOrd κ] [DecidableEq κ] in
theorem total_one (t : ExtTreeMap κ ν) : total (fun _ _ => 1) t = t.size := by
  simp [total]

/-- Inserting bindings with distinct keys one by one. -/
theorem get_foldl_insert (l : List (κ × ν)) (hl : l.Pairwise (fun a b => a.1 ≠ b.1))
    (t : ExtTreeMap κ ν) (k : κ) (v : ν) :
    (l.foldl (fun t r => t.insert r.1 r.2) t)[k]? = some v ↔
      (k, v) ∈ l ∨ (t[k]? = some v ∧ ∀ w, (k, w) ∉ l) := by
  induction l generalizing t with
  | nil => simp
  | cons r l ih =>
    obtain ⟨hr, hl'⟩ := List.pairwise_cons.mp hl
    rw [List.foldl_cons, ih hl', get_insert]
    by_cases hk : k = r.1
    · have hout (w : ν) : (k, w) ∉ l := fun hw => hr (k, w) hw hk.symm
      have hrk : r = (k, r.2) := by rw [hk]
      simp only [if_pos hk, hout, not_false_iff, implies_true, and_true, false_or,
        List.mem_cons, or_false]
      rw [hrk]
      simp [eq_comm]
    · have hne (w : ν) : (k, w) ≠ r := fun he => hk (congrArg Prod.fst he)
      simp [if_neg hk, hne]

/-- The entries of a list that no later entry with the same key overrides. -/
def latest : List (κ × ν) → List (κ × ν)
  | [] => []
  | r :: l => if l.any (fun q => decide (q.1 = r.1)) then latest l else r :: latest l

omit [Ord κ] [TransOrd κ] [LawfulEqOrd κ] in
theorem mem_of_mem_latest {l : List (κ × ν)} {r : κ × ν} (h : r ∈ latest l) : r ∈ l := by
  induction l with
  | nil => exact h
  | cons q l ih =>
    rw [latest] at h
    split_ifs at h
    · exact List.mem_cons_of_mem q (ih h)
    · rcases List.mem_cons.mp h with rfl | h
      · exact List.mem_cons_self
      · exact List.mem_cons_of_mem q (ih h)

/-- Inserting entries one by one binds each key to its last entry. -/
theorem get_foldl_insert_latest (l : List (κ × ν)) (t : ExtTreeMap κ ν) (k : κ) (v : ν) :
    (l.foldl (fun t r => t.insert r.1 r.2) t)[k]? = some v ↔
      (k, v) ∈ latest l ∨ (t[k]? = some v ∧ ∀ r ∈ l, r.1 ≠ k) := by
  induction l generalizing t with
  | nil => simp [latest]
  | cons r l ih =>
    rw [List.foldl_cons, ih, get_insert, latest]
    by_cases hk : k = r.1
    · subst hk
      have hself : ¬ ∀ q ∈ r :: l, q.1 ≠ r.1 := fun h => h r List.mem_cons_self rfl
      rw [if_pos rfl]
      by_cases hl : ∃ q ∈ l, q.1 = r.1
      · obtain ⟨q, hq, hqr⟩ := hl
        have hany : l.any (fun q => decide (q.1 = r.1)) = true := by
          rw [List.any_eq_true]
          exact ⟨q, hq, decide_eq_true hqr⟩
        have hout : ¬ ∀ p ∈ l, p.1 ≠ r.1 := fun h => h q hq hqr
        rw [if_pos hany]
        simp only [hout, hself, and_false]
      · have hnone : ∀ p ∈ l, p.1 ≠ r.1 := fun p hp he => hl ⟨p, hp, he⟩
        have hany : ¬ l.any (fun q => decide (q.1 = r.1)) = true := by
          rw [List.any_eq_true]
          intro h
          obtain ⟨p, hp, he⟩ := h
          exact hnone p hp (of_decide_eq_true he)
        have hout (w : ν) : (r.1, w) ∉ latest l := fun hw => hnone _ (mem_of_mem_latest hw) rfl
        have hpair : (r.1, v) = r ↔ r.2 = v := by
          rw [Prod.ext_iff]
          simp [eq_comm]
        rw [if_neg hany, List.mem_cons, hpair]
        simp only [hout, hself, false_or, or_false, and_false, Option.some.injEq]
        exact and_iff_left hnone
    · have hne (w : ν) : (k, w) ≠ r := fun he => hk (congrArg Prod.fst he)
      have hrk : r.1 ≠ k := Ne.symm hk
      rw [if_neg hk]
      split_ifs
      · simp [hrk]
      · simp [hrk, hne]

/-- A map is rebuilt from its listing. -/
theorem foldl_insert_toList (t : ExtTreeMap κ ν) :
    t.toList.foldl (fun (u : ExtTreeMap κ ν) r => u.insert r.1 r.2) ∅ = t := by
  have hd : t.toList.Pairwise (fun a b => a.1 ≠ b.1) := by
    refine List.Pairwise.imp ?_ t.distinct_keys_toList
    intro a b h he
    exact h (by rw [he]; exact ReflCmp.compare_self)
  apply ExtTreeMap.ext_getElem?
  intro k
  apply Option.ext
  intro v
  rw [get_foldl_insert t.toList hd, ExtTreeMap.mem_toList_iff_getElem?_eq_some]
  simp

omit [DecidableEq κ] in
/-- The first entry of a map is bound and comes before every other. -/
theorem head_toList {t : ExtTreeMap κ ν} {k : κ} {v : ν} (h : t.toList.head? = some (k, v)) :
    t[k]? = some v ∧ ∀ (j : κ) (w : ν), t[j]? = some w → j = k ∨ compare k j = .lt := by
  obtain ⟨l, hl⟩ := List.head?_eq_some_iff.mp h
  have hord := t.ordered_keys_toList
  rw [hl] at hord
  constructor
  · apply ExtTreeMap.mem_toList_iff_getElem?_eq_some.mp
    rw [hl]
    exact List.mem_cons_self
  · intro j w hj
    have hmem := ExtTreeMap.mem_toList_iff_getElem?_eq_some.mpr hj
    rw [hl] at hmem
    rcases List.mem_cons.mp hmem with he | hm
    · exact Or.inl (congrArg Prod.fst he)
    · exact Or.inr ((List.pairwise_cons.mp hord).1 (j, w) hm)

end

end Flowlab.Framework.FiniteMap
