import Mathlib.Tactic

namespace Flowlab.Framework.Pieces

variable {β : Type}

/-- How a stream can end before a read is full: with nothing read yet, or in the middle. -/
inductive Ended where
  | eof
  | unexpectedEof
  deriving DecidableEq, Repr

/-- Read `n` more items, after `got`, from a stream that arrives piece by piece. Every read takes
what it needs from the next piece, or all of it. -/
def readFull (got : List β) : Nat → List (List β) → Except Ended (List β) × List (List β)
  | 0, cs => (.ok got, cs)
  | _ + 1, [] => (.error (if got.isEmpty then .eof else .unexpectedEof), [])
  | n + 1, c :: cs =>
    if c.length ≤ n + 1 then readFull (got ++ c) (n + 1 - c.length) cs
    else (.ok (got ++ c.take (n + 1)), c.drop (n + 1) :: cs)

/-- The pieces do not matter, only the stream they make up. -/
theorem readFull_ok {n : Nat} (cs : List (List β)) (h : n ≤ cs.flatten.length) (got : List β) :
    ∃ cs', readFull got n cs = (.ok (got ++ cs.flatten.take n), cs') ∧
      cs'.flatten = cs.flatten.drop n := by
  induction cs generalizing n got with
  | nil =>
    have hn : n = 0 := by simpa using h
    subst hn
    exact ⟨[], by simp [readFull], rfl⟩
  | cons c cs ih =>
    cases n with
    | zero => exact ⟨c :: cs, by simp [readFull], rfl⟩
    | succ n =>
      rw [readFull]
      rw [List.flatten_cons, List.length_append] at h
      split_ifs with hc
      · obtain ⟨cs', h1, h2⟩ := ih (n := n + 1 - c.length) (by omega) (got ++ c)
        refine ⟨cs', ?_, ?_⟩
        · rw [h1, List.flatten_cons, List.take_append, List.take_of_length_le hc,
            List.append_assoc]
        · rw [h2, List.flatten_cons, List.drop_append, List.drop_of_length_le hc, List.nil_append]
      · refine ⟨c.drop (n + 1) :: cs, ?_, ?_⟩
        · rw [List.flatten_cons, List.take_append_of_le_length (by omega)]
        · rw [List.flatten_cons, List.flatten_cons, List.drop_append_of_le_length (by omega)]

/-- A stream that is too short ends the read. -/
theorem readFull_short {n : Nat} {cs : List (List β)} (h : cs.flatten.length < n) (got : List β) :
    ∃ e, readFull got n cs = (.error e, []) := by
  induction cs generalizing n got with
  | nil =>
    obtain ⟨n, rfl⟩ : ∃ k, n = k + 1 := ⟨n - 1, by omega⟩
    exact ⟨_, rfl⟩
  | cons c cs ih =>
    obtain ⟨n, rfl⟩ : ∃ k, n = k + 1 := ⟨n - 1, by omega⟩
    rw [List.flatten_cons, List.length_append] at h
    rw [readFull, if_pos (by omega)]
    exact ih (by omega) (got ++ c)

/-- At the end of the stream nothing is read. -/
theorem readFull_eof {n : Nat} {cs : List (List β)} (h : cs.flatten = []) (hn : 0 < n) :
    readFull [] n cs = (.error .eof, []) := by
  induction cs with
  | nil =>
    obtain ⟨n, rfl⟩ : ∃ k, n = k + 1 := ⟨n - 1, by omega⟩
    rfl
  | cons c cs ih =>
    obtain ⟨n, rfl⟩ : ∃ k, n = k + 1 := ⟨n - 1, by omega⟩
    rw [List.flatten_cons, List.append_eq_nil_iff] at h
    rw [readFull, h.1, if_pos (by simp), List.nil_append]
    exact ih h.2

end Flowlab.Framework.Pieces
