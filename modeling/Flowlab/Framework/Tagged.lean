import Flowlab.Framework.Drain
import Mathlib.Tactic

namespace Flowlab.Framework.Tagged

variable {β : Type} {size size' : β → Nat} {mem : Nat → β} {len : Nat}

/-- In a stream whose messages tell their size by their first cell, 0 for a cell that begins none:
the start of the whole message at `p`, and the offset behind it. -/
def next (size : β → Nat) (mem : Nat → β) (len p : Nat) : Option (Nat × Nat) :=
  if p < len ∧ size (mem p) ≠ 0 ∧ p + size (mem p) ≤ len then some (p, p + size (mem p)) else none

/-- The starts of the whole messages from `p` on, and where they stop. -/
def walk (size : β → Nat) (mem : Nat → β) (len p : Nat) : List Nat × Nat :=
  drain (next size mem len) (len - p) p

theorem next_some {p start after : Nat} (h : next size mem len p = some (start, after)) :
    start = p ∧ after = p + size (mem p) ∧ p < len ∧ size (mem p) ≠ 0 ∧ after ≤ len := by
  rw [next] at h
  split_ifs at h with hwhole
  obtain ⟨rfl, rfl⟩ := Prod.mk.inj (Option.some.inj h)
  exact ⟨rfl, rfl, hwhole⟩

/-- A message that begins inside the stream but is not whole is cut off. -/
theorem cut_of_none {p : Nat} (h : next size mem len p = none) (hlt : p < len)
    (hpos : size (mem p) ≠ 0) : len < p + size (mem p) := by
  rw [next] at h
  split_ifs at h with hwhole
  by_contra hle
  exact hwhole ⟨hlt, hpos, Nat.le_of_not_lt hle⟩

theorem walk_none {p : Nat} (h : next size mem len p = none) : walk size mem len p = ([], p) :=
  Drain.drain_none h _

theorem advances_next : Drain.Advances (next size mem len) len := by
  intro p start after h
  obtain ⟨rfl, rfl, hlt, hpos, hle⟩ := next_some h
  exact ⟨by omega, hle⟩

theorem walk_some {p start after : Nat} (h : next size mem len p = some (start, after)) :
    walk size mem len p =
      (start :: (walk size mem len after).1, (walk size mem len after).2) :=
  Drain.offsets_some advances_next h

/-- To prove something of every walk, take it message by message. -/
theorem walk_induction (size : β → Nat) (mem : Nat → β) (len : Nat) {P : Nat → Prop}
    (hnone : ∀ p, next size mem len p = none → P p)
    (hsome : ∀ p after, next size mem len p = some (p, after) → P after → P p) (p : Nat) : P p := by
  induction p using Drain.offsets_induction (@advances_next β size mem len) with
  | hnone p h => exact hnone p h
  | hsome p start after h ih =>
    obtain ⟨rfl, -⟩ := next_some h
    exact hsome start after h ih

/-- What a partial function finds along a walk, step by step. -/
theorem filterMap_cons_toList {α γ : Type} (f : α → Option γ) (a : α) (l : List α) :
    (a :: l).filterMap f = (f a).toList ++ l.filterMap f := by
  rw [List.filterMap_cons]
  cases f a <;> rfl

/-- Two partial functions with one domain find the same only when they agree. -/
theorem filterMap_eq_iff {α γ : Type} {f g : α → Option γ} {l : List α}
    (hsome : ∀ a ∈ l, (f a).isSome = (g a).isSome) :
    l.filterMap f = l.filterMap g ↔ ∀ a ∈ l, f a = g a := by
  induction l with
  | nil => simp
  | cons a l ih =>
    have hhead := hsome a List.mem_cons_self
    rw [filterMap_cons_toList, filterMap_cons_toList, List.forall_mem_cons,
      ← ih (fun b hb => hsome b (List.mem_cons_of_mem a hb))]
    cases hf : f a with
    | none =>
      have hg : g a = none := by simpa [hf] using hhead.symm
      rw [hg]
      simp
    | some x =>
      obtain ⟨y, hg⟩ : ∃ y, g a = some y := by simpa [hf, Option.isSome_iff_exists] using hhead.symm
      rw [hg]
      simp

/-- A condition on every split of `a :: l`, by the split in front of `a` and those behind it. -/
theorem forall_split_cons {α : Type} {P : List α → α → Prop} {a : α} {l : List α} :
    (∀ pre x post, a :: l = pre ++ x :: post → P pre x) ↔
      P [] a ∧ ∀ pre x post, l = pre ++ x :: post → P (a :: pre) x := by
  constructor
  · intro h
    refine ⟨h [] a l rfl, ?_⟩
    intro pre x post hl
    exact h (a :: pre) x post (by rw [hl, List.cons_append])
  · intro ⟨hhead, htail⟩ pre x post hl
    cases pre with
    | nil =>
      obtain ⟨rfl, -⟩ := List.cons.inj hl
      exact hhead
    | cons b pre =>
      obtain ⟨rfl, htl⟩ := List.cons.inj hl
      exact htail pre x post htl

theorem walk_le {p : Nat} (hp : p ≤ len) : (walk size mem len p).2 ≤ len := by
  induction p using walk_induction size mem len with
  | hnone p h => rwa [walk_none h]
  | hsome p after h ih =>
    rw [walk_some h]
    exact ih (next_some h).2.2.2.2

/-- Each message found lies whole inside the stream. -/
theorem mem_walk {p start : Nat} (h : start ∈ (walk size mem len p).1) :
    next size mem len start = some (start, start + size (mem start)) := by
  induction p using walk_induction size mem len with
  | hnone p hnone =>
    rw [walk_none hnone] at h
    exact absurd h List.not_mem_nil
  | hsome p after hnext ih =>
    rw [walk_some hnext] at h
    rcases List.mem_cons.mp h with rfl | h
    · rw [← (next_some hnext).2.1]
      exact hnext
    · exact ih h

/-- Where one table finds nothing but whole messages, so does a table with the same sizes and more. -/
theorem walk_agree (hsize : ∀ t, size t ≠ 0 → size' t = size t) {p : Nat}
    (hstop : (walk size mem len p).2 = len) : walk size' mem len p = walk size mem len p := by
  induction p using walk_induction size mem len with
  | hnone p h =>
    rw [walk_none h] at hstop ⊢
    refine walk_none ?_
    rw [next, if_neg]
    intro hwhole
    exact absurd hstop (Nat.ne_of_lt hwhole.1)
  | hsome p after h ih =>
    rw [walk_some h] at hstop ⊢
    obtain ⟨-, rfl, hlt, hpos, hle⟩ := next_some h
    have hnext : next size' mem len p = some (p, p + size (mem p)) := by
      rw [next, hsize _ hpos, if_pos ⟨hlt, hpos, hle⟩]
    rw [walk_some hnext, ih hstop]

end Flowlab.Framework.Tagged
