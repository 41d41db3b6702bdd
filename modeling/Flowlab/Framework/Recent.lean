import Mathlib.Data.List.DropRight
import Mathlib.Data.List.Rotate
import Mathlib.Tactic

namespace Flowlab.Framework.Recent

/-! The newest entries of a list. -/

section

variable {α : Type*} {k : ℕ}

theorem rtake_of_length_le {l : List α} (h : l.length ≤ k) : l.rtake k = l := by
  rw [List.rtake, Nat.sub_eq_zero_of_le h, List.drop_zero]

theorem rtake_min (k : ℕ) (l : List α) : l.rtake (min k l.length) = l.rtake k := by
  rcases Nat.le_total k l.length with h | h
  · rw [Nat.min_eq_left h]
  · rw [Nat.min_eq_right h, rtake_of_length_le h, rtake_of_length_le le_rfl]

theorem rtake_rtake {j : ℕ} (h : j ≤ k) (l : List α) : (l.rtake k).rtake j = l.rtake j := by
  rw [List.rtake, List.rtake, List.rtake, List.drop_drop, List.length_drop]
  congr 1
  omega

theorem rtake_append {l : List α} (h : k ≤ l.length) (pre : List α) :
    (pre ++ l).rtake k = l.rtake k := by
  have hlen : (pre ++ l).length - k = pre.length + (l.length - k) := by
    rw [List.length_append]
    omega
  rw [List.rtake, List.rtake, hlen, List.drop_append]
  simp

/-- To go on with the newest `k`, it is enough to know the newest `k` so far. -/
theorem rtake_concat (hk : 0 < k) (l : List α) (x : α) :
    (l.rtake k ++ [x]).rtake k = (l ++ [x]).rtake k := by
  obtain ⟨k, rfl⟩ := Nat.exists_eq_add_of_lt hk
  rw [Nat.zero_add, List.rtake_concat_succ, List.rtake_concat_succ, rtake_rtake (Nat.le_succ k)]

/-- A queue that gives up its front where it is full keeps the newest. -/
theorem evict_concat (hk : 0 < k) {l : List α} (hl : l.length ≤ k) (x : α) :
    (if k ≤ l.length then l.tail else l) ++ [x] = (l ++ [x]).rtake k := by
  split_ifs with hfull
  · obtain ⟨y, t, rfl⟩ := List.exists_cons_of_length_pos (hk.trans_le hfull)
    have hlen : (y :: t ++ [x]).length - k = 1 := by
      rw [List.length_append, List.length_singleton]
      omega
    rw [List.rtake, hlen]
    rfl
  · rw [rtake_of_length_le]
    rw [List.length_append, List.length_singleton]
    omega

/-- In a list that is read from `i` around, the oldest gives its place to the newest. -/
theorem rotate_set {l : List α} {i : ℕ} (hi : i < l.length) (x : α) :
    (l.set i x).rotate (i + 1) = (l.rotate i).tail ++ [x] := by
  have hlen : i + 1 ≤ (l.set i x).length := by rw [List.length_set]; exact hi
  rw [List.rotate_eq_drop_append_take hlen, List.rotate_eq_drop_append_take hi.le,
    List.drop_set_of_lt (Nat.lt_succ_self i), List.take_set, List.drop_eq_getElem_cons hi,
    List.cons_append, List.tail_cons, List.append_assoc, List.take_succ_eq_append_getElem hi,
    List.set_append_right _ _ (by rw [List.length_take]; omega), List.length_take,
    Nat.min_eq_left hi.le, Nat.sub_self, List.set_cons_zero]

end

/-! What a run of steps leaves in a part of the state. -/

section

variable {σ α β : Type*} {step : σ → α → σ} {s : σ} {l : List α}

/-- A part that some steps set and the others leave. -/
theorem foldl_last (get : σ → β) (set? : α → Option β)
    (h : ∀ s, ∀ a ∈ l, get (step s a) = (set? a).getD (get s)) :
    get (l.foldl step s) = (l.filterMap set?).getLast?.getD (get s) := by
  induction l using List.reverseRecOn with
  | nil => rfl
  | append_singleton l a ih =>
    have ih := ih fun s b hb => h s b (List.mem_append_left _ hb)
    rw [List.foldl_append, List.foldl_cons, List.foldl_nil, h _ a (by simp), ih,
      List.filterMap_append]
    cases ha : set? a with
    | none => rw [List.filterMap_cons_none ha, List.filterMap_nil, List.append_nil, Option.getD_none]
    | some b => simp [ha]

/-- A list that some steps add to, giving up its front where it is full. -/
theorem foldl_recent {k : ℕ} (hk : 0 < k) (get : σ → List β) (new? : α → Option β)
    (hnew : ∀ s a x, new? a = some x →
      get (step s a) = (if k ≤ (get s).length then (get s).tail else get s) ++ [x])
    (hkeep : ∀ s a, new? a = none → get (step s a) = get s) (hs : get s = []) :
    get (l.foldl step s) = (l.filterMap new?).rtake k := by
  induction l using List.reverseRecOn with
  | nil => exact hs.trans (List.rtake_nil k).symm
  | append_singleton l a ih =>
    rw [List.foldl_append, List.foldl_cons, List.foldl_nil, List.filterMap_append]
    cases ha : new? a with
    | none =>
      rw [hkeep _ a ha, ih, List.filterMap_cons_none ha, List.filterMap_nil, List.append_nil]
    | some x =>
      have hlen : ((l.filterMap new?).rtake k).length ≤ k := by
        rw [List.rtake, List.length_drop]
        omega
      rw [hnew _ a x ha, ih, evict_concat hk hlen, rtake_concat hk, List.filterMap_cons_some ha,
        List.filterMap_nil]

end

/-! A ring. -/

section

variable {α : Type*} [Inhabited α] {n : ℕ}

/-- The last `len` slots written of a ring whose next write goes to `head`, the oldest first. -/
def contents (v : Vector α n) (head len : ℕ) : List α :=
  (List.range len).map fun i => v.getD ((head + n - len + i) % n) default

omit [Inhabited α] in
theorem getD_set (v : Vector α n) {i : ℕ} (hi : i < n) (x y : α) (j : ℕ) :
    (v.set! i x).getD j y = if j = i then x else v.getD j y := by
  have hsize : i < v.toArray.size := by rw [Vector.size_toArray]; exact hi
  rw [Vector.getD, Vector.getD, Vector.toArray_set!, Array.set!_eq_setIfInBounds,
    Array.getD_eq_getD_getElem?, Array.getD_eq_getD_getElem?, Array.getElem?_setIfInBounds]
  by_cases hj : j = i
  · rw [if_pos hj.symm, if_pos hsize, if_pos hj, Option.getD_some]
  · rw [if_neg (Ne.symm hj), if_neg hj]

omit [Inhabited α] in
theorem next_back {head len i : ℕ} (hhead : head < n) (hlen : len < n) :
    ((head + 1) % n + n - (len + 1) + i) % n = (head + n - len + i) % n := by
  rcases Nat.lt_or_ge (head + 1) n with hlt | hge
  · rw [Nat.mod_eq_of_lt hlt]
    congr 1
    omega
  · have hlast : head + 1 = n := by omega
    rw [hlast, Nat.mod_self, ← Nat.add_mod_right]
    congr 1
    omega

/-- A write into a ring that is not full adds the newest. -/
theorem contents_push {v : Vector α n} {head len : ℕ} (hhead : head < n) (hlen : len < n) (x : α) :
    contents (v.set! head x) ((head + 1) % n) (len + 1) = contents v head len ++ [x] := by
  rw [contents, List.range_succ, List.map_append, contents, List.map_singleton]
  congr 1
  · apply List.map_congr_left
    intro i hi
    have hback := List.mem_range.mp hi
    rw [next_back hhead hlen, getD_set v hhead]
    refine if_neg fun hslot => ?_
    -- From `head`, the slot is less than a whole turn back.
    rcases Nat.lt_or_ge (head + n - len + i) n with hlt | hge
    · rw [Nat.mod_eq_of_lt hlt] at hslot
      omega
    · rw [Nat.mod_eq_sub_mod hge, Nat.mod_eq_of_lt (by omega)] at hslot
      omega
  · have hslot : head + n - len + len = head + n := by omega
    rw [next_back hhead hlen, hslot, Nat.add_mod_right, Nat.mod_eq_of_lt hhead, getD_set v hhead,
      if_pos rfl]

/-- Without the oldest. -/
theorem contents_tail (v : Vector α n) {head len : ℕ} (hlen : len < head + n) :
    (contents v head (len + 1)).tail = contents v head len := by
  rw [contents, List.range_succ_eq_map, List.map_cons, List.tail_cons, List.map_map, contents]
  apply List.map_congr_left
  intro i hi
  have hslot : head + n - (len + 1) + (i + 1) = head + n - len + i := by omega
  show v.getD ((head + n - (len + 1) + (i + 1)) % n) default = _
  rw [hslot]

theorem contents_length (v : Vector α n) (head len : ℕ) :
    (contents v head len).length = len := by
  rw [contents, List.length_map, List.length_range]

end

/-- A ring of `n` slots and where it stands. -/
structure RingBuffer (α : Type*) (n : ℕ) where
  slots : Vector α n
  head : ℕ
  len : ℕ

/-- What is done to a ring. -/
inductive Op (α : Type*) where
  | push (x : α)
  | clear

section

variable {α : Type*} [Inhabited α] {n cap : ℕ}

namespace RingBuffer

/-- A write, which makes the ring longer up to `cap`, however many slots there are. -/
def push (cap : ℕ) (r : RingBuffer α n) (x : α) : RingBuffer α n where
  slots := r.slots.set! r.head x
  head := (r.head + 1) % n
  len := if r.len < cap then r.len + 1 else r.len

def clear (r : RingBuffer α n) : RingBuffer α n := { r with len := 0 }

def apply (cap : ℕ) (r : RingBuffer α n) : Op α → RingBuffer α n
  | .push x => r.push cap x
  | .clear => r.clear

def held (r : RingBuffer α n) : List α := contents r.slots r.head r.len

structure Sound (cap : ℕ) (r : RingBuffer α n) : Prop where
  head : r.head < n
  len : r.len ≤ cap

omit [Inhabited α] in
theorem Sound.apply {r : RingBuffer α n} (h : r.Sound cap) (op : Op α) : (r.apply cap op).Sound cap := by
  cases op with
  | push x =>
    refine ⟨Nat.mod_lt _ (Nat.zero_lt_of_lt h.head), ?_⟩
    have hlen := h.len
    show (if r.len < cap then r.len + 1 else r.len) ≤ cap
    split_ifs <;> omega
  | clear => exact ⟨h.head, Nat.zero_le cap⟩

/-- Whether or not the ring is full. -/
theorem held_push {r : RingBuffer α n} (h : r.Sound cap) (hcap : 0 < cap) (hfit : cap ≤ n) (x : α) :
    (r.push cap x).held = (r.held ++ [x]).rtake cap := by
  have hlen := h.len
  rw [← evict_concat hcap (by rw [held, contents_length]; exact hlen), held, held, contents_length]
  show contents _ _ (if r.len < cap then r.len + 1 else r.len) = _
  split_ifs with hroom hfull hfull
  · omega
  · exact contents_push h.head (by omega) x
  · -- The slot written is that of the oldest, or one that has been given up before.
    obtain ⟨k, hk⟩ := Nat.exists_eq_add_of_lt (hcap.trans_le hfull)
    rw [Nat.zero_add] at hk
    rw [hk, contents_tail _ (by omega)]
    exact contents_push h.head (by omega) x
  · omega

end RingBuffer

omit [Inhabited α]

/-- All that is pushed, in its order. -/
def pushed (ops : List (Op α)) : List α :=
  ops.filterMap fun
    | .push x => some x
    | .clear => none

/-- What is pushed after the last clear. -/
def sinceClear (ops : List (Op α)) : List α :=
  ops.foldl (fun l op => match op with
    | .push x => l ++ [x]
    | .clear => []) []

theorem sinceClear_concat (ops : List (Op α)) (op : Op α) :
    sinceClear (ops ++ [op]) = match op with
      | .push x => sinceClear ops ++ [x]
      | .clear => [] := by
  rw [sinceClear, List.foldl_append]
  cases op <;> rfl

theorem sinceClear_suffix (ops : List (Op α)) : sinceClear ops <:+ pushed ops := by
  induction ops using List.reverseRecOn with
  | nil => exact List.suffix_refl _
  | append_singleton ops op ih =>
    rw [sinceClear_concat, pushed, List.filterMap_append]
    cases op with
    | push x =>
      obtain ⟨pre, hpre⟩ := ih
      exact ⟨pre, by rw [← List.append_assoc, hpre]; rfl⟩
    | clear => exact List.nil_suffix

/-- The newest since the last clear are the newest of all. -/
theorem rtake_sinceClear (ops : List (Op α)) (k : ℕ) :
    (sinceClear ops).rtake k = (pushed ops).rtake (min k (sinceClear ops).length) := by
  obtain ⟨pre, hpre⟩ := sinceClear_suffix ops
  rw [← hpre, rtake_append (Nat.min_le_right _ _), rtake_min]

theorem RingBuffer.Sound.run {r : RingBuffer α n} (h : r.Sound cap) (ops : List (Op α)) :
    (ops.foldl (RingBuffer.apply cap) r).Sound cap := by
  induction ops generalizing r with
  | nil => exact h
  | cons op ops ih => exact ih (h.apply op)

/-- A ring holds nothing but what it held and what was pushed. -/
theorem RingBuffer.mem_held_run [Inhabited α] {r : RingBuffer α n} (h : r.Sound cap) (hcap : 0 < cap)
    (hfit : cap ≤ n) {ops : List (Op α)} {x : α}
    (hx : x ∈ (ops.foldl (RingBuffer.apply cap) r).held) : x ∈ r.held ∨ x ∈ pushed ops := by
  induction ops generalizing r with
  | nil => exact .inl hx
  | cons op ops ih =>
    rcases ih (h.apply op) hx with hold | hnew
    · cases op with
      | push y =>
        change x ∈ (r.push cap y).held at hold
        rw [RingBuffer.held_push h hcap hfit] at hold
        rcases List.mem_append.mp (List.mem_of_mem_drop hold) with hr | hy
        · exact .inl hr
        · exact .inr (by rw [List.mem_singleton.mp hy]; exact List.mem_cons_self)
      | clear => exact absurd hold (by simp [RingBuffer.apply, RingBuffer.clear, held, contents])
    · refine .inr ?_
      cases op with
      | push y => exact List.mem_cons_of_mem _ hnew
      | clear => exact hnew

/-- From an empty ring, whatever is pushed and cleared, the newest since the last clear are held. -/
theorem RingBuffer.held_run [Inhabited α] {r : RingBuffer α n} (h : r.Sound cap) (hempty : r.len = 0)
    (hcap : 0 < cap) (hfit : cap ≤ n) (ops : List (Op α)) :
    (ops.foldl (RingBuffer.apply cap) r).held = (sinceClear ops).rtake cap := by
  induction ops using List.reverseRecOn with
  | nil =>
    show contents r.slots r.head r.len = _
    rw [hempty]
    exact (List.rtake_nil cap).symm
  | append_singleton ops op ih =>
    rw [List.foldl_append, sinceClear_concat]
    cases op with
    | push x =>
      show (RingBuffer.push cap (ops.foldl (RingBuffer.apply cap) r) x).held = _
      rw [RingBuffer.held_push (h.run ops) hcap hfit, ih, rtake_concat hcap]
    | clear => exact (List.rtake_nil cap).symm

end

end Flowlab.Framework.Recent
