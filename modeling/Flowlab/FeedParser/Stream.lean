import Flowlab.FeedParser.Itch
import Flowlab.Framework.Tagged

namespace Flowlab.FeedParser

open Framework Access Tagged
open Flowlab.Core (Event)

/-- The events of the messages that begin at `starts`. -/
def events (mem : Nat → UInt8) (starts : List Nat) : List Event :=
  starts.filterMap (fun p => (dispatch p).value mem)

theorem events_cons (mem : Nat → UInt8) (start : Nat) (starts : List Nat) :
    events mem (start :: starts) = ((dispatch start).value mem).toList ++ events mem starts :=
  filterMap_cons_toList _ start starts

theorem length_events (mem : Nat → UInt8) (starts : List Nat) :
    (events mem starts).length = starts.countP (fun p => bearsEvent (mem p)) := by
  rw [events, List.length_filterMap_eq_countP]
  simp only [isSome_dispatch]

/-- The walk over the messages meets a type byte that no message has. -/
def MeetsUnknown (mem : Nat → UInt8) (rawLen : Nat) : Prop :=
  (walk msgLength mem rawLen 0).2 < rawLen ∧ msgLength (mem (walk msgLength mem rawLen 0).2) = 0

/-- What `parse_buffer` returns when its walk stops at `stop` with `count` events written. -/
def stopCode (mem : Nat → UInt8) (rawLen stop count : Nat) : Int :=
  if stop < rawLen ∧ msgLength (mem stop) = 0 then -1 else count

section

variable {mem : Nat → UInt8} {rawLen outCap fuel offset : Nat} {out : List Event}

theorem parseLoop_full (h : outCap ≤ out.length) :
    parseLoop rawLen outCap fuel offset out = pure ⟨offset, out, out.length⟩ := by
  cases fuel with
  | zero => rfl
  | succ fuel => rw [parseLoop, if_neg (by omega)]

theorem parseLoop_none (h : next msgLength mem rawLen offset = none)
    (hroom : out.length < outCap) (hfuel : rawLen - offset ≤ fuel) :
    (parseLoop rawLen outCap fuel offset out).value mem =
      ⟨offset, out, stopCode mem rawLen offset out.length⟩ := by
  rw [stopCode]
  by_cases hend : offset < rawLen
  · obtain ⟨fuel, rfl⟩ : ∃ k, fuel = k + 1 := ⟨fuel - 1, by omega⟩
    rw [parseLoop, if_pos ⟨hend, hroom⟩, value_bind, value_cell]
    dsimp only
    by_cases hunknown : msgLength (mem offset) = 0
    · rw [if_pos hunknown, if_pos ⟨hend, hunknown⟩, value_pure]
    · rw [if_neg hunknown, if_pos (cut_of_none h hend hunknown), if_neg (fun hstop => hunknown hstop.2), value_pure]
  · rw [if_neg (fun hstop => hend hstop.1)]
    cases fuel with
    | zero => rfl
    | succ fuel => rw [parseLoop, if_neg (fun hgo => hend hgo.1), value_pure]

theorem parseLoop_some {after : Nat} (h : next msgLength mem rawLen offset = some (offset, after))
    (hroom : out.length < outCap) :
    (parseLoop rawLen outCap (fuel + 1) offset out).value mem =
      (parseLoop rawLen outCap fuel after
        (out ++ ((dispatch offset).value mem).toList)).value mem := by
  obtain ⟨-, rfl, hlt, hpos, hle⟩ := next_some h
  rw [parseLoop, if_pos ⟨hlt, hroom⟩, value_bind, value_cell]
  dsimp only
  rw [if_neg hpos, if_neg (by omega), value_bind]

end

/-- With room for more events than the stream holds, the loop walks to the end of the messages. -/
theorem parseLoop_room {mem : Nat → UInt8} {rawLen outCap fuel offset : Nat} {out : List Event}
    (hfuel : rawLen - offset ≤ fuel)
    (hroom : (out ++ events mem (walk msgLength mem rawLen offset).1).length < outCap) :
    (parseLoop rawLen outCap fuel offset out).value mem =
      ⟨(walk msgLength mem rawLen offset).2, out ++ events mem (walk msgLength mem rawLen offset).1,
        stopCode mem rawLen (walk msgLength mem rawLen offset).2
          (out ++ events mem (walk msgLength mem rawLen offset).1).length⟩ := by
  induction offset using walk_induction msgLength mem rawLen generalizing fuel out with
  | hnone offset h =>
    rw [walk_none h] at hroom ⊢
    have hnil : out ++ events mem [] = out := List.append_nil out
    rw [hnil] at hroom ⊢
    exact parseLoop_none h hroom hfuel
  | hsome offset after h ih =>
    obtain ⟨-, hafter, hlt, hpos, hle⟩ := next_some h
    obtain ⟨fuel, rfl⟩ : ∃ k, fuel = k + 1 := ⟨fuel - 1, by omega⟩
    rw [walk_some h] at hroom ⊢
    rw [events_cons, ← List.append_assoc] at hroom ⊢
    have hout : out.length < outCap := by
      simp only [List.length_append] at hroom
      omega
    rw [parseLoop_some h hout, ih (by omega) hroom]

/-- Without it, the loop stops once `out` is full. -/
theorem parseLoop_stops {mem : Nat → UInt8} {rawLen outCap fuel offset : Nat} {out : List Event}
    (hfuel : rawLen - offset ≤ fuel) (hout : out.length ≤ outCap)
    (hfull : outCap ≤ (out ++ events mem (walk msgLength mem rawLen offset).1).length) :
    ((parseLoop rawLen outCap fuel offset out).value mem).out =
        (out ++ events mem (walk msgLength mem rawLen offset).1).take outCap ∧
      ((parseLoop rawLen outCap fuel offset out).value mem).ret = outCap := by
  induction offset using walk_induction msgLength mem rawLen generalizing fuel out with
  | hnone offset h =>
    have hnil : out ++ events mem [] = out := List.append_nil out
    rw [walk_none h, hnil] at hfull
    rw [parseLoop_full hfull, value_pure, List.take_left' (Nat.le_antisymm hout hfull),
      Nat.le_antisymm hfull hout]
    exact ⟨rfl, rfl⟩
  | hsome offset after h ih =>
    rcases Nat.eq_or_lt_of_le hout with heq | hroom
    · rw [parseLoop_full heq.ge, value_pure, List.take_left' heq, ← heq]
      exact ⟨rfl, rfl⟩
    · obtain ⟨-, hafter, hlt, hpos, hle⟩ := next_some h
      obtain ⟨fuel, rfl⟩ : ∃ k, fuel = k + 1 := ⟨fuel - 1, by omega⟩
      have hone : ((dispatch offset).value mem).toList.length ≤ 1 := Option.length_toList_le
      rw [walk_some h, events_cons, ← List.append_assoc] at hfull ⊢
      rw [parseLoop_some h hroom]
      exact ih (by omega) (by rw [List.length_append]; omega) hfull

section

variable {mem : Nat → UInt8} {rawLen outCap : Nat}

theorem parseBuffer_room (h : (events mem (walk msgLength mem rawLen 0).1).length < outCap) :
    (parseBuffer rawLen outCap).value mem =
      ⟨(walk msgLength mem rawLen 0).2, events mem (walk msgLength mem rawLen 0).1,
        stopCode mem rawLen (walk msgLength mem rawLen 0).2
          (events mem (walk msgLength mem rawLen 0).1).length⟩ :=
  parseLoop_room (Nat.sub_le rawLen 0) h

theorem parseBuffer_stops (h : outCap ≤ (events mem (walk msgLength mem rawLen 0).1).length) :
    ((parseBuffer rawLen outCap).value mem).out =
        (events mem (walk msgLength mem rawLen 0).1).take outCap ∧
      ((parseBuffer rawLen outCap).value mem).ret = outCap :=
  parseLoop_stops (Nat.sub_le rawLen 0) (Nat.zero_le outCap) h

/-- A stream of whole messages is parsed to its end, or up to the event that fills `out`. -/
theorem parseBuffer_whole {starts : List Nat}
    (hwalk : walk msgLength mem rawLen 0 = (starts, rawLen))
    (hroom : (events mem starts).length ≤ outCap) :
    ((parseBuffer rawLen outCap).value mem).ret = (events mem starts).length ∧
      ((parseBuffer rawLen outCap).value mem).out = events mem starts ∧
      ((events mem starts).length < outCap →
        ((parseBuffer rawLen outCap).value mem).offset = rawLen) := by
  have hfst : (walk msgLength mem rawLen 0).1 = starts := by rw [hwalk]
  have hsnd : (walk msgLength mem rawLen 0).2 = rawLen := by rw [hwalk]
  rcases Nat.lt_or_eq_of_le hroom with hlt | heq
  · rw [parseBuffer_room (by rwa [hfst]), hfst, hsnd, stopCode, if_neg (by omega)]
    exact ⟨rfl, rfl, fun _ => rfl⟩
  · obtain ⟨hout, hret⟩ := parseBuffer_stops (by rw [hfst, heq])
    rw [hout, hret, hfst, List.take_of_length_le hroom, heq]
    exact ⟨rfl, rfl, fun hlt => absurd hlt (Nat.lt_irrefl _)⟩

end

end Flowlab.FeedParser
