import Flowlab.FeedParser.Stream

namespace Flowlab.Core

open Framework Access Tagged FeedParser

def Event.zeroed : Event := ⟨0, 0, 0, 0, 0, 0, 0⟩

/-- The C entry point of the Zig `parse_buffer`. -/
def flowlabParseItch (rawLen outCap : Nat) : Reader Parsed := parseBuffer rawLen outCap

/-- `parse_itch` on the `rawLen` bytes at the start of `mem`. -/
def parseItch (mem : Nat → UInt8) (rawLen : Nat) : Except String (List Event) :=
  let maxEvents := rawLen / 20
  let r := (flowlabParseItch rawLen maxEvents).value mem
  let out := r.out ++ List.replicate (maxEvents - r.out.length) Event.zeroed
  let n := r.ret
  if n < 0 then .error "Zig ITCH parser returned error"
  else .ok (out.take n.toNat)

/-- The parser with an output that is never filled returns the events `evs`. -/
def Produces (mem : Nat → UInt8) (rawLen : Nat) (evs : List Event) : Prop :=
  ∃ room, ∀ outCap, room ≤ outCap →
    ((parseBuffer rawLen outCap).value mem).ret = evs.length ∧
      ((parseBuffer rawLen outCap).value mem).out = evs

section

variable {mem : Nat → UInt8} {rawLen : Nat}

theorem stopCode_unknown (h : MeetsUnknown mem rawLen) (count : Nat) :
    stopCode mem rawLen (walk msgLength mem rawLen 0).2 count = -1 :=
  if_pos h

theorem stopCode_known (h : ¬ MeetsUnknown mem rawLen) (count : Nat) :
    stopCode mem rawLen (walk msgLength mem rawLen 0).2 count = count :=
  if_neg h

/-- The events produced are those of the whole messages, unless an unknown type is met. -/
theorem produces_iff (evs : List Event) :
    Produces mem rawLen evs ↔
      ¬ MeetsUnknown mem rawLen ∧ evs = events mem (walk msgLength mem rawLen 0).1 := by
  constructor
  · intro ⟨room, h⟩
    obtain ⟨hret, hout⟩ :=
      h (room + (events mem (walk msgLength mem rawLen 0).1).length + 1) (by omega)
    rw [parseBuffer_room (by omega)] at hret hout
    refine ⟨?_, hout.symm⟩
    intro hunknown
    rw [stopCode_unknown hunknown] at hret
    exact absurd hret (by simp)
  · intro ⟨hknown, hevs⟩
    refine ⟨evs.length + 1, ?_⟩
    intro outCap hcap
    rw [hevs] at hcap ⊢
    rw [parseBuffer_room hcap, stopCode_known hknown]
    exact ⟨rfl, rfl⟩

theorem parseItch_of_ret {evs : List Event}
    (hret : ((parseBuffer rawLen (rawLen / 20)).value mem).ret = evs.length)
    (hout : ((parseBuffer rawLen (rawLen / 20)).value mem).out = evs) :
    parseItch mem rawLen = .ok evs := by
  have hpos : ¬ ((flowlabParseItch rawLen (rawLen / 20)).value mem).ret < 0 := by
    rw [flowlabParseItch, hret]
    omega
  rw [parseItch]
  rw [if_neg hpos, flowlabParseItch, hret, hout, Int.toNat_natCast, List.take_left]

/-- Unless an unknown type is met, as many events are returned as there is room for. -/
theorem parseItch_eq (h : ¬ MeetsUnknown mem rawLen) :
    parseItch mem rawLen = .ok ((events mem (walk msgLength mem rawLen 0).1).take (rawLen / 20)) := by
  rcases Nat.lt_or_ge (events mem (walk msgLength mem rawLen 0).1).length (rawLen / 20)
    with hroom | hfull
  · rw [List.take_of_length_le hroom.le]
    apply parseItch_of_ret
    · rw [parseBuffer_room hroom, stopCode_known h]
    · rw [parseBuffer_room hroom]
  · obtain ⟨hout, hret⟩ := parseBuffer_stops hfull
    exact parseItch_of_ret (by rw [hret, List.length_take_of_le hfull]) hout

end

/-- `parse_itch` returns all the events of a buffer exactly when at most a twentieth of its length
in messages bear one: an order delete takes 19 bytes. -/
theorem parseItch_complete_iff (mem : Nat → UInt8) (rawLen : Nat) :
    (∀ evs, Produces mem rawLen evs → parseItch mem rawLen = .ok evs) ↔
      MeetsUnknown mem rawLen ∨
        (walk msgLength mem rawLen 0).1.countP (fun p => bearsEvent (mem p)) ≤ rawLen / 20 := by
  rw [← length_events]
  by_cases hunknown : MeetsUnknown mem rawLen
  · refine iff_of_true ?_ (.inl hunknown)
    intro evs hevs
    exact absurd hunknown ((produces_iff evs).mp hevs).1
  · rw [parseItch_eq hunknown, or_iff_right hunknown]
    constructor
    · intro h
      have htake := Except.ok.inj (h _ ((produces_iff _).mpr ⟨hunknown, rfl⟩))
      exact List.take_eq_self_iff _ |>.mp htake
    · intro hle evs hevs
      rw [List.take_of_length_le hle, ((produces_iff evs).mp hevs).2]

/-- One order delete: the parser produces its event, and `parse_itch` returns none. -/
theorem parseItch_loses_delete :
    ∃ mem : Nat → UInt8, Produces mem 19 [⟨0, 0, 0, 0, 0, 2, 0⟩] ∧ parseItch mem 19 = .ok [] := by
  refine ⟨fun i => if i = 0 then 0x44 else 0, ?_, by decide +kernel⟩
  rw [produces_iff, MeetsUnknown]
  decide +kernel

end Flowlab.Core
