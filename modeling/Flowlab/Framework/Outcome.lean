import Mathlib.Data.List.Basic
import Mathlib.Tactic.SplitIfs

namespace Flowlab.Framework

variable {ε α β : Type}

/-- A computation past a check has passed it. -/
theorem ok_of_check {c : Prop} [Decidable c] {e : ε} {x : Except ε α} {a : α}
    (h : (if c then .error e else x) = .ok a) : ¬ c ∧ x = .ok a := by
  split_ifs at h with hc
  exact ⟨hc, h⟩

/-- A sequence that succeeds succeeds at each step. -/
theorem ok_of_bind {x : Except ε α} {f : α → Except ε β} {b : β} (h : (x >>= f) = .ok b) :
    ∃ a, x = .ok a ∧ f a = .ok b := by
  cases x with
  | error e => exact absurd h (by simp [bind, Except.bind])
  | ok a => exact ⟨a, rfl, h⟩

/-- A computation without a panic past a check has none. -/
theorem some_of_check {c : Prop} [Decidable c] {e a : α} {x : Option α} (h : ¬ c → x = some a) :
    (if c then some e else x) = some (if c then e else a) := by
  split_ifs with hc
  · rfl
  · exact h hc

theorem some_of_bind {x : Option α} {f : α → Option β} {a : α} {b : β} (hx : x = some a)
    (hf : f a = some b) : (x >>= f) = some b := by
  rw [hx]
  exact hf

/-- A fallible computation that ends in `post`, or in an error `err` that `room` rules out. -/
def Outcome (err : ε → Prop) (room : Prop) (post : α → Prop) : Except ε α → Prop
  | .ok a => post a
  | .error e => err e ∧ ¬ room

namespace Outcome

variable {err : ε → Prop} {room wide : Prop} {post : α → Prop} {next : β → Prop}

theorem bind {x : Except ε α} {f : α → Except ε β} (hx : Outcome err room post x)
    (hf : ∀ a, post a → Outcome err room next (f a)) : Outcome err room next (x >>= f) := by
  cases x with
  | ok a => exact hf a hx
  | error e => exact hx

theorem mono {x : Except ε α} {post' : α → Prop} (hx : Outcome err wide post x)
    (hw : room → wide) (hp : ∀ a, post a → post' a) : Outcome err room post' x := by
  cases x with
  | ok a => exact hp a hx
  | error e => exact ⟨hx.1, fun hr => hx.2 (hw hr)⟩

theorem ok_of_room {x : Except ε α} (hx : Outcome err room post x) (hr : room) :
    ∃ a, x = .ok a ∧ post a := by
  cases x with
  | ok a => exact ⟨a, rfl, hx⟩
  | error e => exact absurd hr hx.2

end Outcome

end Flowlab.Framework
