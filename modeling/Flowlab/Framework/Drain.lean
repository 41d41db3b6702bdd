import Mathlib.Data.List.Basic

namespace Flowlab.Framework

variable {α σ : Type}

/-- Read items off the front of a stream until the reader stops: the items, and what is left. -/
def drain (read : σ → Option (α × σ)) : Nat → σ → List α × σ
  | 0, s => ([], s)
  | n + 1, s =>
    match read s with
    | none => ([], s)
    | some (x, t) => (x :: (drain read n t).1, (drain read n t).2)

namespace Drain

variable {read : σ → Option (α × σ)}

theorem drain_none {s : σ} (h : read s = none) (n : Nat) : drain read n s = ([], s) := by
  cases n with
  | zero => rfl
  | succ n => simp only [drain, h]

theorem drain_some {s t : σ} {x : α} (h : read s = some (x, t)) (n : Nat) :
    drain read (n + 1) s = (x :: (drain read n t).1, (drain read n t).2) := by
  simp only [drain, h]

theorem drain_stays {n : Nat} {s : σ} (h : (drain read n s).1 = []) : (drain read n s).2 = s := by
  cases n with
  | zero => rfl
  | succ n =>
    cases hr : read s with
    | none => rw [drain_none hr]
    | some p =>
      rw [drain_some hr] at h
      exact absurd h (List.cons_ne_nil _ _)

/-- A reader that shortens what it reads needs no more rounds than the stream has cells. -/
theorem drain_fuel (size : σ → Nat) (hs : ∀ s x t, read s = some (x, t) → size t < size s)
    {n m : Nat} {s : σ} (hn : size s ≤ n) (hm : size s ≤ m) : drain read n s = drain read m s := by
  induction n generalizing m s with
  | zero =>
    have hnone : read s = none := by
      cases hr : read s with
      | none => rfl
      | some p =>
        have hlt := hs s p.1 p.2 hr
        omega
    rw [drain_none hnone, drain_none hnone]
  | succ n ih =>
    cases hr : read s with
    | none => rw [drain_none hr, drain_none hr]
    | some p =>
      have hlt := hs s p.1 p.2 hr
      obtain ⟨k, rfl⟩ : ∃ k, m = k + 1 := ⟨m - 1, by omega⟩
      rw [drain_some hr, drain_some hr, ih (m := k) (by omega) (by omega)]

/-- Such a reader has stopped by itself after that many rounds. -/
theorem drain_ends (size : σ → Nat) (hs : ∀ s x t, read s = some (x, t) → size t < size s)
    {n : Nat} {s : σ} (hn : size s ≤ n) : read (drain read n s).2 = none := by
  induction n generalizing s with
  | zero =>
    cases hr : read s with
    | none => exact hr
    | some p =>
      have hlt := hs s p.1 p.2 hr
      omega
  | succ n ih =>
    cases hr : read s with
    | none => rw [drain_none hr, hr]
    | some p =>
      have hlt := hs s p.1 p.2 hr
      rw [drain_some hr]
      exact ih (by omega)

/-- What holds at the start and survives every round whose item is permitted holds at the end. -/
theorem drain_keeps {P : σ → Prop} {ok : α → Prop}
    (hstep : ∀ s x t, P s → read s = some (x, t) → ok x → P t) (n : Nat) {s : σ} (hs : P s)
    (hok : ∀ x ∈ (drain read n s).1, ok x) : P (drain read n s).2 := by
  induction n generalizing s with
  | zero => exact hs
  | succ n ih =>
    cases hr : read s with
    | none =>
      rw [drain_none hr]
      exact hs
    | some p =>
      rw [drain_some hr] at hok ⊢
      have hp := hstep s p.1 p.2 hs hr (hok p.1 (by simp))
      exact ih hp (fun x hx => hok x (by simp [hx]))

/-- What a round gives of its item holds of every item. -/
theorem drain_items {P : σ → Prop} {Q : α → Prop}
    (hstep : ∀ s x t, P s → read s = some (x, t) → Q x ∧ P t) (n : Nat) {s : σ} (hs : P s) :
    ∀ x ∈ (drain read n s).1, Q x := by
  induction n generalizing s with
  | zero => exact fun x hx => absurd hx (by simp [drain])
  | succ n ih =>
    cases hr : read s with
    | none =>
      rw [drain_none hr]
      exact fun x hx => absurd hx (by simp)
    | some p =>
      obtain ⟨hq, hp⟩ := hstep s p.1 p.2 hs hr
      rw [drain_some hr]
      intro x hx
      rcases List.mem_cons.mp hx with rfl | hx
      · exact hq
      · exact ih hp x hx

/-- A counter that every round moves by one for the items that count. -/
theorem drain_count {count : σ → Nat} {counts : α → Bool}
    (hstep : ∀ s x t, read s = some (x, t) → count t = count s + (counts x).toNat) (n : Nat) (s : σ) :
    count (drain read n s).2 = count s + (drain read n s).1.countP counts := by
  induction n generalizing s with
  | zero => rfl
  | succ n ih =>
    cases hr : read s with
    | none =>
      rw [drain_none hr]
      rfl
    | some p =>
      have hc := hstep s p.1 p.2 hr
      rw [drain_some hr, ih, hc, List.countP_cons]
      cases counts p.1 with
      | false => simp
      | true =>
        simp only [Bool.toNat_true, if_true]
        omega

/-! Readers of offsets that move on and stay inside the stream. -/

def Advances (read : Nat → Option (α × Nat)) (len : Nat) : Prop :=
  ∀ p x q, read p = some (x, q) → p < q ∧ q ≤ len

section

variable {read : Nat → Option (α × Nat)} {len : Nat}

theorem offsets_some (h : Advances read len) {p q : Nat} {x : α} (hr : read p = some (x, q)) :
    drain read (len - p) p = (x :: (drain read (len - q) q).1, (drain read (len - q) q).2) := by
  obtain ⟨hlt, hle⟩ := h p x q hr
  obtain ⟨k, hk⟩ : ∃ k, len - p = k + 1 := ⟨len - p - 1, by omega⟩
  rw [hk, drain_some hr, drain_fuel (len - ·) ?_ (by omega : _ ≤ k) (Nat.le_refl _)]
  intro p x q hr
  obtain ⟨hlt, hle⟩ := h p x q hr
  omega

theorem offsets_induction (h : Advances read len) {P : Nat → Prop}
    (hnone : ∀ p, read p = none → P p) (hsome : ∀ p x q, read p = some (x, q) → P q → P p) (p : Nat) :
    P p := by
  induction hn : len - p using Nat.strongRecOn generalizing p with
  | ind n ih =>
    cases hr : read p with
    | none => exact hnone p hr
    | some pair =>
      obtain ⟨hlt, hle⟩ := h p pair.1 pair.2 hr
      exact hsome p pair.1 pair.2 hr (ih (len - pair.2) (by omega) pair.2 rfl)

/-- A reader whose items are the offsets they are read at finds them in ascending order, and from
each of them on what it finds from there. -/
theorem offsets_split {read : Nat → Option (Nat × Nat)} (h : Advances read len)
    (hown : ∀ p x q, read p = some (x, q) → x = p) {p q : Nat}
    (hq : q ∈ (drain read (len - p) p).1) :
    (drain read (len - p) p).2 = (drain read (len - q) q).2 ∧ p ≤ q ∧
      ∃ pre, (drain read (len - p) p).1 = pre ++ (drain read (len - q) q).1 ∧ ∀ r ∈ pre, r < q := by
  induction p using offsets_induction h with
  | hnone p hr =>
    rw [drain_none hr] at hq
    exact absurd hq List.not_mem_nil
  | hsome p x after hr ih =>
    obtain ⟨hlt, -⟩ := h p x after hr
    have hx := hown p x after hr
    by_cases he : q = p
    · rw [he]
      exact ⟨rfl, Nat.le_refl p, [], rfl, fun r hr => absurd hr List.not_mem_nil⟩
    · rw [offsets_some h hr] at hq ⊢
      have htail : q ∈ (drain read (len - after) after).1 := by
        rcases List.mem_cons.mp hq with h0 | h0
        · exact absurd (h0.trans hx) he
        · exact h0
      obtain ⟨hstop, hle, pre, hpre, hall⟩ := ih htail
      refine ⟨hstop, by omega, x :: pre, by rw [hpre, List.cons_append], ?_⟩
      intro r hr
      rcases List.mem_cons.mp hr with rfl | hr
      · omega
      · exact hall r hr

end

end Drain

end Flowlab.Framework
